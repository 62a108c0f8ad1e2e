/-
# JSON texts are read back

A JSON text writes a value with any white space between the tokens of its arrays and
objects (`Json.Written`). The reader takes such a text for the value it writes and
leaves what follows it (`Json.Written.readValue`); its bound on steps, twice the length
of the text, is always enough. Both layouts of the printer are such texts
(`Json.written_render`, `Json.written_prettyAt`), so what was printed is read back.

Numbers are left out: a value is textual (`Json.Textual`) if it holds no number and no
string that is absent.

Key definitions: `Json.IsSpaces`, `Json.Written`, `Json.Textual`, `Json.glue`.
Key theorems: `Json.readString_flatMap`, `Json.Written.readValue`,
`Json.Written.parse?`, `Json.written_render`, `Json.written_prettyAt`.
-/
import Mathlib.Data.List.DropRight
import Mathlib.Tactic.Common
import Manuscript.Json.Printer
import Manuscript.Json.Reader

namespace Manuscript

theorem Text.hexDigit?_hexDigit {n : Nat} (h : n < 16) :
    Text.hexDigit? (Text.hexDigit n) = some n := by
  have hall : ∀ m < 16, Text.hexDigit? (Text.hexDigit m) = some m := by decide
  exact hall n h

namespace Json

/-! ### Strings -/

theorem readString_shortEscape {e c : Char} (h : shortEscape? e = some c) (rest : List Char) :
    readString ('\\' :: e :: rest) = (readString rest).map (consChar c) := by
  have hunit : e ≠ 'u' := by
    rintro rfl
    cases h
  simp [readString, hunit, h]

theorem readString_cons {c : Char} (hquote : c ≠ '"') (hslash : c ≠ '\\') (hcontrol : 0x20 ≤ c.toNat)
    (rest : List Char) : readString (c :: rest) = (readString rest).map (consChar c) := by
  have hplain : ¬ c.toNat < 0x20 := by omega
  simp [readString, hslash, hplain]

/-- A control character is written by the two digits of its value. -/
theorem unit?_hexDigit {n : Nat} (h : n < 256) :
    unit? '0' '0' (Text.hexDigit (n / 16)) (Text.hexDigit (n % 16)) = some n := by
  have hzero : Text.hexDigit? '0' = some 0 := by decide
  have hhigh := Text.hexDigit?_hexDigit (n := n / 16) (by omega)
  have hlow := Text.hexDigit?_hexDigit (n := n % 16) (by omega)
  have hsum : ((0 * 16 + 0) * 16 + n / 16) * 16 + n % 16 = n := by omega
  simp only [unit?, hzero, hhigh, hlow, Option.bind_eq_bind, Option.bind_some, hsum]

theorem readString_control {c : Char} (h : c.toNat < 0x20) (rest : List Char) :
    readString ('\\' :: 'u' :: '0' :: '0' :: Text.hexDigit (c.toNat / 16) ::
      Text.hexDigit (c.toNat % 16) :: rest) = (readString rest).map (consChar c) := by
  have hlow : isLow c.toNat = false := by
    simp only [isLow, Bool.and_eq_false_iff, decide_eq_false_iff_not]
    omega
  have hhigh : isHigh c.toNat = false := by
    simp only [isHigh, Bool.and_eq_false_iff, decide_eq_false_iff_not]
    omega
  rw [readString, unit?_hexDigit (by omega)]
  simp only [hlow, hhigh, Char.ofNat_toNat, Bool.false_eq_true, if_false]

theorem readString_escapeChar (c : Char) (rest : List Char) :
    readString (escapeChar c ++ rest) = (readString rest).map (consChar c) := by
  unfold escapeChar
  by_cases hquote : c = '"'
  · rw [if_pos hquote, hquote]
    exact readString_shortEscape rfl rest
  rw [if_neg hquote]
  by_cases hslash : c = '\\'
  · rw [if_pos hslash, hslash]
    exact readString_shortEscape rfl rest
  rw [if_neg hslash]
  by_cases hback : c = '\x08'
  · rw [if_pos hback, hback]
    exact readString_shortEscape rfl rest
  rw [if_neg hback]
  by_cases hfeed : c = '\x0c'
  · rw [if_pos hfeed, hfeed]
    exact readString_shortEscape rfl rest
  rw [if_neg hfeed]
  by_cases hline : c = '\n'
  · rw [if_pos hline, hline]
    exact readString_shortEscape rfl rest
  rw [if_neg hline]
  by_cases hreturn : c = '\r'
  · rw [if_pos hreturn, hreturn]
    exact readString_shortEscape rfl rest
  rw [if_neg hreturn]
  by_cases htab : c = '\t'
  · rw [if_pos htab, htab]
    exact readString_shortEscape rfl rest
  rw [if_neg htab]
  by_cases hcontrol : c.toNat < 0x20
  · rw [if_pos hcontrol]
    exact readString_control hcontrol rest
  rw [if_neg hcontrol]
  exact readString_cons hquote hslash (Nat.le_of_not_lt hcontrol) rest

/-- **A string is read back up to its closing quote.** -/
theorem readString_flatMap (cs rest : List Char) :
    readString (cs.flatMap escapeChar ++ '"' :: rest) = some (some cs, rest) := by
  induction cs with
  | nil => simp [readString]
  | cons c cs ih =>
    rw [List.flatMap_cons, List.append_assoc, readString_escapeChar, ih]
    rfl

/-! ### Texts -/

/-- The characters are all white space. -/
def IsSpaces (cs : List Char) : Prop := ∀ c ∈ cs, isSpace c = true

theorem isSpaces_nil : IsSpaces [] := by simp [IsSpaces]

theorem isSpaces_space : IsSpaces [' '] := by simp [IsSpaces, isSpace]

mutual

/-- The text writes the value; white space may stand between the tokens of an array or object. -/
inductive Written : Json → List Char → Prop
  | null : Written .null ['n', 'u', 'l', 'l']
  | yes : Written (.bool true) ['t', 'r', 'u', 'e']
  | no : Written (.bool false) ['f', 'a', 'l', 's', 'e']
  | string (s : String) :
    Written (.string (some s)) ('"' :: (s.toList.flatMap escapeChar ++ ['"']))
  | emptyArray {gap : List Char} : IsSpaces gap → Written (.array []) ('[' :: (gap ++ [']']))
  | array {items : List Json} {text : List Char} : WrittenItems items text →
    Written (.array items) ('[' :: text)
  | emptyObject {gap : List Char} : IsSpaces gap →
    Written (.object []) ('\x7b' :: (gap ++ ['\x7d']))
  | object {entries : List (Option String × Json)} {text : List Char} :
    WrittenEntries entries text → Written (.object entries) ('\x7b' :: text)

/-- The text writes items with commas between them, up to the closing bracket. -/
inductive WrittenItems : List Json → List Char → Prop
  | last {j : Json} {before text after : List Char} : IsSpaces before → Written j text →
    IsSpaces after → WrittenItems [j] (before ++ (text ++ (after ++ [']'])))
  | more {j : Json} {items : List Json} {before text after rest : List Char} : IsSpaces before →
    Written j text → IsSpaces after → WrittenItems items rest →
    WrittenItems (j :: items) (before ++ (text ++ (after ++ ',' :: rest)))

/-- The text writes entries with commas between them, up to the closing brace. -/
inductive WrittenEntries : List (Option String × Json) → List Char → Prop
  | last {j : Json} {before gap text after : List Char} (name : String) : IsSpaces before →
    IsSpaces gap → Written j text → IsSpaces after → WrittenEntries [(some name, j)]
      (before ++ '"' :: (name.toList.flatMap escapeChar ++
        '"' :: ':' :: (gap ++ (text ++ (after ++ ['\x7d'])))))
  | more {j : Json} {entries : List (Option String × Json)} {before gap text after rest : List Char}
    (name : String) : IsSpaces before → IsSpaces gap → Written j text → IsSpaces after →
    WrittenEntries entries rest → WrittenEntries ((some name, j) :: entries)
      (before ++ '"' :: (name.toList.flatMap escapeChar ++
        '"' :: ':' :: (gap ++ (text ++ (after ++ ',' :: rest)))))

end

/-! ### Reading -/

theorem skipSpace_append {gap : List Char} (h : IsSpaces gap) (cs : List Char) :
    skipSpace (gap ++ cs) = skipSpace cs := List.dropWhile_append_of_pos h

theorem skipSpace_cons {c : Char} (h : isSpace c = false) (cs : List Char) :
    skipSpace (c :: cs) = c :: cs := List.dropWhile_cons_of_neg (by simp [h])

@[simp] theorem skipSpace_skipSpace (cs : List Char) : skipSpace (skipSpace cs) = skipSpace cs :=
  List.dropWhile_idempotent isSpace cs

theorem skipSpace_close {gap : List Char} (h : IsSpaces gap) {c : Char} (hc : isSpace c = false)
    (rest : List Char) : skipSpace (gap ++ c :: rest) = c :: rest := by
  rw [skipSpace_append h, skipSpace_cons hc]

/-- Every reader skips the white space in front of what it reads. -/
theorem readValue_skipSpace (steps : Nat) (cs : List Char) :
    readValue steps (skipSpace cs) = readValue steps cs := by
  cases steps <;> simp only [readValue, skipSpace_skipSpace]

theorem readItems_skipSpace (steps : Nat) (cs : List Char) :
    readItems steps (skipSpace cs) = readItems steps cs := by
  cases steps <;> simp only [readItems, readValue_skipSpace]

theorem readEntries_skipSpace (steps : Nat) (cs : List Char) :
    readEntries steps (skipSpace cs) = readEntries steps cs := by
  cases steps <;> simp only [readEntries, skipSpace_skipSpace]

theorem readValue_append {gap : List Char} (h : IsSpaces gap) (steps : Nat) (cs : List Char) :
    readValue steps (gap ++ cs) = readValue steps cs := by
  rw [← readValue_skipSpace, skipSpace_append h, readValue_skipSpace]

/-- A value starts with no white space and with no closing bracket. -/
theorem Written.exists_cons {j : Json} {text : List Char} (h : Written j text) :
    ∃ c cs, text = c :: cs ∧ isSpace c = false ∧ c ≠ ']' := by
  cases h <;> exact ⟨_, _, rfl, by decide, by decide⟩

theorem WrittenItems.skipSpace_ne {items : List Json} {text : List Char}
    (h : WrittenItems items text) (rest cs : List Char) : skipSpace (text ++ rest) ≠ ']' :: cs := by
  have key : ∀ {j : Json} {before text : List Char}, IsSpaces before → Written j text →
      ∀ more : List Char, skipSpace (before ++ (text ++ more)) ≠ ']' :: cs := by
    intro j before text hbefore htext more
    obtain ⟨c, tail, rfl, hspace, hclose⟩ := htext.exists_cons
    rw [List.cons_append, skipSpace_close hbefore hspace]
    simp [hclose]
  cases h with
  | last hbefore htext _ =>
    rw [List.append_assoc, List.append_assoc]
    exact key hbefore htext _
  | more hbefore htext _ _ =>
    rw [List.append_assoc, List.append_assoc]
    exact key hbefore htext _

theorem WrittenEntries.skipSpace_ne {entries : List (Option String × Json)} {text : List Char}
    (h : WrittenEntries entries text) (rest cs : List Char) :
    skipSpace (text ++ rest) ≠ '\x7d' :: cs := by
  cases h with
  | last name hbefore _ _ _ =>
    rw [List.append_assoc, List.cons_append, skipSpace_close hbefore (by decide)]
    simp
  | more name hbefore _ _ _ _ =>
    rw [List.append_assoc, List.cons_append, skipSpace_close hbefore (by decide)]
    simp

theorem readValue_array {steps : Nat} {cs rest : List Char} {items : List Json}
    (hopen : ∀ more, skipSpace cs ≠ ']' :: more) (h : readItems steps cs = some (items, rest)) :
    readValue (steps + 1) ('[' :: cs) = some (array items, rest) := by
  rw [readValue, skipSpace_cons (by decide)]
  simp only [↓Char.isValue]
  rw [readItems_skipSpace, h]
  rfl

theorem readValue_object {steps : Nat} {cs rest : List Char} {entries : List (Option String × Json)}
    (hopen : ∀ more, skipSpace cs ≠ '\x7d' :: more)
    (h : readEntries steps cs = some (entries, rest)) :
    readValue (steps + 1) ('\x7b' :: cs) = some (object entries, rest) := by
  rw [readValue, skipSpace_cons (by decide)]
  simp only [↓Char.isValue]
  rw [readEntries_skipSpace, h]
  rfl

mutual

/-- **A value is read back from any text that writes it**, whatever follows. -/
theorem Written.readValue : ∀ {j : Json} {text : List Char}, Written j text →
    ∀ {steps : Nat} (rest : List Char), 2 * text.length ≤ steps →
      Json.readValue steps (text ++ rest) = some (j, rest)
  | _, _, .null, steps + 1, rest, _ => by
    rw [List.cons_append, Json.readValue, skipSpace_cons (by decide)]
    rfl
  | _, _, .yes, steps + 1, rest, _ => by
    rw [List.cons_append, Json.readValue, skipSpace_cons (by decide)]
    rfl
  | _, _, .no, steps + 1, rest, _ => by
    rw [List.cons_append, Json.readValue, skipSpace_cons (by decide)]
    rfl
  | _, _, .string s, steps + 1, rest, _ => by
    rw [List.cons_append, Json.readValue, skipSpace_cons (by decide)]
    simp [readString_flatMap]
  | _, _, .emptyArray hgap, steps + 1, rest, _ => by
    rw [List.cons_append, Json.readValue, skipSpace_cons (by decide)]
    simp [skipSpace_close hgap (show isSpace ']' = false by decide)]
  | _, _, .emptyObject hgap, steps + 1, rest, _ => by
    rw [List.cons_append, Json.readValue, skipSpace_cons (by decide)]
    simp [skipSpace_close hgap (show isSpace '\x7d' = false by decide)]
  | _, _, .array h, steps + 1, rest, hsteps => by
    rw [List.length_cons] at hsteps
    exact readValue_array (h.skipSpace_ne rest) (h.readItems rest (by omega))
  | _, _, .object h, steps + 1, rest, hsteps => by
    rw [List.length_cons] at hsteps
    exact readValue_object (h.skipSpace_ne rest) (h.readEntries rest (by omega))

theorem WrittenItems.readItems : ∀ {items : List Json} {text : List Char}, WrittenItems items text →
    ∀ {steps : Nat} (rest : List Char), 2 * text.length ≤ steps →
      Json.readItems steps (text ++ rest) = some (items, rest)
  | _, _, .last hbefore h hafter, steps, rest, hsteps => by
    simp only [List.length_append, List.length_cons] at hsteps
    obtain ⟨steps, rfl⟩ := Nat.exists_eq_add_one_of_ne_zero (n := steps) (by omega)
    simp only [List.append_assoc, List.cons_append, List.nil_append]
    rw [Json.readItems, readValue_append hbefore, h.readValue _ (by omega)]
    simp only [skipSpace_close hafter (show isSpace ']' = false by decide)]
  | _, _, .more hbefore h hafter hmore, steps, rest, hsteps => by
    simp only [List.length_append, List.length_cons] at hsteps
    obtain ⟨steps, rfl⟩ := Nat.exists_eq_add_one_of_ne_zero (n := steps) (by omega)
    simp only [List.append_assoc, List.cons_append]
    rw [Json.readItems, readValue_append hbefore, h.readValue _ (by omega)]
    simp only [skipSpace_close hafter (show isSpace ',' = false by decide)]
    rw [hmore.readItems rest (by omega)]
    rfl

theorem WrittenEntries.readEntries : ∀ {entries : List (Option String × Json)} {text : List Char},
    WrittenEntries entries text → ∀ {steps : Nat} (rest : List Char), 2 * text.length ≤ steps →
      Json.readEntries steps (text ++ rest) = some (entries, rest)
  | _, _, .last name hbefore hgap h hafter, steps, rest, hsteps => by
    simp only [List.length_append, List.length_cons] at hsteps
    obtain ⟨steps, rfl⟩ := Nat.exists_eq_add_one_of_ne_zero (n := steps) (by omega)
    simp only [List.append_assoc, List.cons_append, List.nil_append]
    rw [Json.readEntries, skipSpace_close hbefore (by decide)]
    simp only [readString_flatMap, skipSpace_cons (show isSpace ':' = false by decide)]
    rw [readValue_append hgap, h.readValue _ (by omega)]
    simp [skipSpace_close hafter (show isSpace '\x7d' = false by decide)]
  | _, _, .more name hbefore hgap h hafter hmore, steps, rest, hsteps => by
    simp only [List.length_append, List.length_cons] at hsteps
    obtain ⟨steps, rfl⟩ := Nat.exists_eq_add_one_of_ne_zero (n := steps) (by omega)
    simp only [List.append_assoc, List.cons_append]
    rw [Json.readEntries, skipSpace_close hbefore (by decide)]
    simp only [readString_flatMap, skipSpace_cons (show isSpace ':' = false by decide)]
    rw [readValue_append hgap, h.readValue _ (by omega)]
    simp only [skipSpace_close hafter (show isSpace ',' = false by decide)]
    rw [hmore.readEntries rest (by omega)]
    simp

end

/-- **A text that writes a value is read as the value.** -/
theorem Written.parse? {j : Json} {s : String} (h : Written j s.toList) : Json.parse? s = some j := by
  have hread : Json.readValue (2 * s.toList.length + 2) (s.toList ++ []) = some (j, []) :=
    h.readValue [] (by omega)
  rw [List.append_nil] at hread
  unfold Json.parse?
  dsimp only
  rw [hread]
  rfl

/-! ### Printing -/

/-- The value holds no number and no string that is absent. -/
inductive Textual : Json → Prop
  | null : Textual .null
  | bool (b : Bool) : Textual (.bool b)
  | string (s : String) : Textual (.string (some s))
  | array {items : List Json} : (∀ j ∈ items, Textual j) → Textual (.array items)
  | object {entries : List (Option String × Json)} : (∀ e ∈ entries, e.1.isSome = true) →
    (∀ e ∈ entries, Textual e.2) → Textual (.object entries)

/-- The parts one after the other, each behind `before`, with commas between them and `after`
behind the last, up to the closing mark. -/
def glue (before after : List Char) (closer : Char) : List String → List Char
  | [] => after ++ [closer]
  | [part] => before ++ (part.toList ++ (after ++ [closer]))
  | part :: next :: rest =>
    before ++ (part.toList ++ ',' :: glue before after closer (next :: rest))

section Printing

variable {before after gap : List Char} (hbefore : IsSpaces before) (hafter : IsSpaces after)

include hbefore hafter

theorem writtenItems_glue {f : Json → String} : ∀ {items : List Json}, items ≠ [] →
    (∀ j ∈ items, Written j (f j).toList) →
    WrittenItems items (glue before after ']' (items.map f))
  | [], hne, _ => absurd rfl hne
  | [j], _, h => .last hbefore (h j List.mem_cons_self) hafter
  | j :: next :: rest, _, h => by
    have hrest := writtenItems_glue (List.cons_ne_nil next rest) fun k hk =>
      h k (List.mem_cons_of_mem j hk)
    exact .more hbefore (h j List.mem_cons_self) isSpaces_nil hrest

theorem writtenEntries_glue (hgap : IsSpaces gap) {f : Json → String} :
    ∀ {entries : List (Option String × Json)}, entries ≠ [] → (∀ e ∈ entries, e.1.isSome = true) →
    (∀ e ∈ entries, Written e.2 (f e.2).toList) → WrittenEntries entries (glue before after '\x7d'
      (entries.map fun e => quote (e.1.getD "") ++ String.ofList (':' :: gap) ++ f e.2))
  | [], hne, _, _ => absurd rfl hne
  | [(some name, j)], _, _, h => by
    have hlast := WrittenEntries.last name hbefore hgap (h _ List.mem_cons_self) hafter
    simpa [glue, quote] using hlast
  | (some name, j) :: next :: rest, _, hnames, h => by
    have hrest := writtenEntries_glue hgap (List.cons_ne_nil next rest)
      (fun e he => hnames e (List.mem_cons_of_mem _ he)) fun e he => h e (List.mem_cons_of_mem _ he)
    have hmore :=
      WrittenEntries.more name hbefore hgap (h _ List.mem_cons_self) isSpaces_nil hrest
    simpa [glue, quote] using hmore
  | (none, j) :: _, _, hnames, _ => by simpa using hnames _ List.mem_cons_self

end Printing

theorem renderItems_eq (items : List Json) : renderItems items = items.map render := by
  induction items with
  | nil => rfl
  | cons j rest ih => rw [renderItems, ih, List.map_cons]

theorem renderEntries_eq (entries : List (Option String × Json)) : renderEntries entries =
    entries.map fun e => quote (e.1.getD "") ++ String.ofList (':' :: []) ++ render e.2 := by
  induction entries with
  | nil => rfl
  | cons e rest ih => rw [renderEntries, ih, List.map_cons]

theorem prettyItems_eq (depth : Nat) (items : List Json) :
    prettyItems depth items = items.map (prettyAt depth) := by
  induction items with
  | nil => rfl
  | cons j rest ih => rw [prettyItems, ih, List.map_cons]

theorem prettyEntries_eq (depth : Nat) (entries : List (Option String × Json)) :
    prettyEntries depth entries =
      entries.map fun e => quote (e.1.getD "") ++ String.ofList (':' :: [' ']) ++ prettyAt depth e.2 := by
  induction entries with
  | nil => rfl
  | cons e rest ih => rw [prettyEntries, ih, List.map_cons]

theorem toList_join_comma (closer : Char) : ∀ parts : List String,
    (Text.join "," parts).toList ++ [closer] = glue [] [] closer parts
  | [] => rfl
  | [part] => rfl
  | part :: next :: rest => by simp [Text.join, glue, ← toList_join_comma closer (next :: rest)]

theorem toList_join_margin (depth : Nat) (closer : Char) : ∀ parts : List String, parts ≠ [] →
    '\n' :: (Text.join ",\n" (parts.map (margin (depth + 1) ++ ·))).toList ++
        '\n' :: (margin depth).toList ++ [closer] =
      glue ('\n' :: (margin (depth + 1)).toList) ('\n' :: (margin depth).toList) closer parts
  | [], h => absurd rfl h
  | [part], _ => by simp [Text.join, glue]
  | part :: next :: rest, _ => by
    have ih := toList_join_margin depth closer (next :: rest) (List.cons_ne_nil _ _)
    rw [glue, ← ih]
    simp [Text.join]

theorem isSpaces_margin (depth : Nat) : IsSpaces ('\n' :: (margin depth).toList) := by
  intro c hc
  simp only [margin, String.toList_ofList, List.mem_cons, List.mem_replicate] at hc
  obtain rfl | ⟨-, rfl⟩ := hc <;> decide

/-- **What is printed without white space writes the value.** -/
theorem written_render {j : Json} (h : Textual j) : Written j j.render.toList := by
  induction h with
  | null => exact .null
  | bool b => cases b <;> constructor
  | string s => simpa [render, quote] using Written.string s
  | @array items _ ih =>
    by_cases hne : items = []
    · subst hne
      exact .emptyArray isSpaces_nil
    · have hitems := writtenItems_glue isSpaces_nil isSpaces_nil hne ih
      rw [← toList_join_comma, ← renderItems_eq] at hitems
      simpa [render] using Written.array hitems
  | @object entries hnames _ ih =>
    by_cases hne : entries = []
    · subst hne
      exact .emptyObject isSpaces_nil
    · have hentries := writtenEntries_glue isSpaces_nil isSpaces_nil isSpaces_nil hne hnames ih
      rw [← toList_join_comma, ← renderEntries_eq] at hentries
      simpa [render] using Written.object hentries

/-- **What is printed with every part on a line of its own writes the value.** -/
theorem written_prettyAt {j : Json} (h : Textual j) (depth : Nat) :
    Written j (j.prettyAt depth).toList := by
  induction h generalizing depth with
  | null => simpa [prettyAt] using Written.null
  | bool b =>
    cases b with
    | true => simpa [prettyAt] using Written.yes
    | false => simpa [prettyAt] using Written.no
  | string s => simpa [prettyAt, quote] using Written.string s
  | @array items _ ih =>
    by_cases hne : items = []
    · subst hne
      simpa [prettyAt, prettyItems, layOut] using Written.emptyArray isSpaces_nil
    · have hitems := writtenItems_glue (isSpaces_margin (depth + 1)) (isSpaces_margin depth) hne
        fun j hj => ih j hj (depth + 1)
      rw [← toList_join_margin _ _ _ (by simpa using hne), ← prettyItems_eq] at hitems
      have hparts : (prettyItems (depth + 1) items).isEmpty = false := by
        simpa [prettyItems_eq] using hne
      simpa [prettyAt, layOut, hparts] using Written.array hitems
  | @object entries hnames _ ih =>
    by_cases hne : entries = []
    · subst hne
      simpa [prettyAt, prettyEntries, layOut] using Written.emptyObject isSpaces_nil
    · have hentries := writtenEntries_glue (isSpaces_margin (depth + 1)) (isSpaces_margin depth)
        isSpaces_space hne hnames fun e he => ih e he (depth + 1)
      rw [← toList_join_margin _ _ _ (by simpa using hne), ← prettyEntries_eq] at hentries
      have hparts : (prettyEntries (depth + 1) entries).isEmpty = false := by
        simpa [prettyEntries_eq] using hne
      simpa [prettyAt, layOut, hparts] using Written.object hentries

end Json
end Manuscript
