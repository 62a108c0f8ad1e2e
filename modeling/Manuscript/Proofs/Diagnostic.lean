/-
# Messages and their holes

The holes of a template are filled one after the other, each time in the whole message, so a
value that was put in is looked at again for the holes of the parameters behind it. Filled all
at once they would not be, and their order would not matter.

The holes of all templates stand apart: behind each comes a quote, a space or the end, and
before each a quote, a space or the start (`Code.isPiece_template`). A key that is a word has
neither quote nor space, so its hole cannot reach from a value into the text around it, and the
pieces of a template between quotes and spaces are filled on their own. What becomes of a hole
is then the value of its key with the holes of the later parameters filled in it
(`Code.piece_fate`), and the message is as it would be at once exactly if this changes no value
(`Code.message_filled_iff`).

Key definitions: `Code.filled`, `Code.inTurn`, `Code.Asks`, `Code.Settled`.
Key theorems: `Code.toList_message`, `Code.eq_of_hole_within`, `Code.piece_fate`,
`Code.message_filled_iff`.
-/
import Mathlib.Data.List.Perm.Basic
import Manuscript.Diagnostic
import Manuscript.Proofs.Text.Replace

namespace Manuscript.Code

open Text (splitBy replaceEach Piecewise)

/-! ### All at once and in turn -/

/-- The holes of some parameters, with the values that fill them. -/
def fillings (params : List (String × String)) : List (List Char × List Char) :=
  params.map fun p => ((hole p.1).toList, p.2.toList)

/-- The message of a code with its holes filled by the parameters all at once. -/
def filled (c : Code) (params : List (String × String)) : String :=
  String.ofList (replaceEach (fillings params) c.template.toList)

/-- A text with the holes of the parameters filled one after the other. -/
def inTurn : List (String × String) → List Char → List Char
  | [], cs => cs
  | p :: params, cs => inTurn params (Text.replaceFrom (hole p.1).toList p.2.toList 0 cs)

/-- The template of the code has a hole for the key. -/
def Asks (c : Code) (key : String) : Prop := (hole key).toList <:+: c.template.toList

/-- A character that stands next to the holes of templates. -/
def isGap (c : Char) : Bool := c == '\'' || c == ' '

/-- The key has neither a quote nor a space. -/
def isWord (key : String) : Bool := key.toList.all fun c => !isGap c

theorem toList_foldl_replaceAll : ∀ (params : List (String × String)) (text : String),
    (params.foldl (fun t p => Text.replaceAll (hole p.1) p.2 t) text).toList =
      inTurn params text.toList
  | [], _ => rfl
  | p :: params, text => by
    rw [List.foldl_cons, toList_foldl_replaceAll params, inTurn, Text.replaceAll,
      String.toList_ofList]

/-- The message of a code is its template filled in turn. -/
theorem toList_message (c : Code) (params : List (String × String)) :
    (c.message params).toList = inTurn params c.template.toList :=
  toList_foldl_replaceAll params c.template

theorem inTurn_cons (p : String × String) (params : List (String × String)) (cs : List Char) :
    inTurn (p :: params) cs = inTurn params (replaceEach (fillings [p]) cs) := by
  rw [inTurn, Text.replaceFrom_eq]
  rfl

theorem inTurn_append : ∀ (before after : List (String × String)) (cs : List Char),
    inTurn (before ++ after) cs = inTurn after (inTurn before cs)
  | [], _, _ => rfl
  | p :: before, after, cs => by rw [List.cons_append, inTurn, inTurn, inTurn_append before after]

variable {params : List (String × String)} {key value : String}

theorem toList_hole (key : String) :
    (hole key).toList = '\x7b' :: (key.toList ++ ['\x7d']) := by
  simp [hole]

theorem isGap_of_mem_hole (h : isWord key = true) : ∀ c ∈ (hole key).toList, isGap c = false := by
  intro c hc
  rw [toList_hole] at hc
  rcases List.mem_cons.1 hc with rfl | hc
  · rfl
  · rcases List.mem_append.1 hc with hc | hc
    · simpa using List.all_eq_true.1 h c hc
    · rw [List.mem_singleton.1 hc]
      rfl

/-- Filling at once goes piece by piece. -/
theorem piecewise_atOnce (h : ∀ p ∈ params, isWord p.1 = true) :
    Piecewise isGap (replaceEach (fillings params)) := by
  refine Text.piecewise_replaceEach fun r hr => ?_
  obtain ⟨p, hp, rfl⟩ := List.mem_map.1 hr
  exact ⟨by simp [toList_hole], isGap_of_mem_hole (h p hp)⟩

/-- Filling in turn goes piece by piece. -/
theorem piecewise_inTurn : ∀ {params : List (String × String)},
    (∀ p ∈ params, isWord p.1 = true) → Piecewise isGap (inTurn params)
  | [], _ => fun _ _ _ _ => rfl
  | p :: params, h => by
    obtain ⟨hp, hparams⟩ := List.forall_mem_cons.1 h
    have hfirst : Piecewise isGap (replaceEach (fillings [p])) :=
      piecewise_atOnce (List.forall_mem_singleton.2 hp)
    rw [funext (inTurn_cons p params)]
    exact (piecewise_inTurn hparams).comp hfirst

/-! ### What becomes of a hole -/

/-- The key has no brace, so that its hole holds no other. -/
def Braceless (key : String) : Prop := '\x7b' ∉ key.toList ∧ '\x7d' ∉ key.toList

theorem eq_of_hole_starts (hkey : Braceless key) {k : String}
    (h : (hole k).toList <+: (hole key).toList) : k = key := by
  rw [toList_hole, toList_hole] at h
  obtain ⟨rest, hrest⟩ := (List.cons_prefix_cons.1 h).2
  rw [List.append_assoc, List.singleton_append, eq_comm,
    List.append_cons_inj_of_notMem hkey.2 List.not_mem_nil] at hrest
  exact String.toList_inj.1 hrest.1.symm

/-- A hole without braces in its key holds only itself. -/
theorem eq_of_hole_within (hkey : Braceless key) {k : String}
    (h : (hole k).toList <:+: (hole key).toList) : k = key := by
  by_contra hne
  rw [toList_hole key] at h
  rcases List.infix_cons_iff.1 h with h | h
  · rw [← toList_hole] at h
    exact hne (eq_of_hole_starts hkey h)
  · have hbrace : '\x7b' ∈ key.toList ++ ['\x7d'] := h.subset (by simp [toList_hole])
    exact hkey.1 (by simpa using hbrace)

theorem replaceEach_of_not_mem {w : List Char} (h : '\x7b' ∉ w) :
    replaceEach (fillings params) w = w := by
  refine Text.replaceEach_of_absent fun r hr hin => ?_
  obtain ⟨p, -, rfl⟩ := List.mem_map.1 hr
  exact h (hin.subset (by simp [toList_hole]))

theorem replaceEach_hole_of_not_mem (hkey : Braceless key) (h : key ∉ params.map Prod.fst) :
    replaceEach (fillings params) (hole key).toList = (hole key).toList := by
  refine Text.replaceEach_of_absent fun r hr hin => ?_
  obtain ⟨p, hp, rfl⟩ := List.mem_map.1 hr
  exact h (eq_of_hole_within hkey hin ▸ List.mem_map_of_mem hp)

/-- The hole of a key is filled by its value. -/
theorem replaceEach_hole_of_mem (hkey : Braceless key) (hkeys : (params.map Prod.fst).Nodup)
    (h : (key, value) ∈ params) :
    replaceEach (fillings params) (hole key).toList = value.toList := by
  have hmem : ((hole key).toList, value.toList) ∈ fillings params :=
    List.mem_map.2 ⟨(key, value), h, rfl⟩
  rw [toList_hole]
  cases hfind : (fillings params).find?
      fun r => r.1.isPrefixOf ('\x7b' :: (key.toList ++ ['\x7d'])) with
  | none =>
    have hnone := List.find?_eq_none.1 hfind _ hmem
    simp [toList_hole] at hnone
  | some r =>
    have hstarts : r.1 <+: (hole key).toList := by
      rw [toList_hole]
      simpa using List.find?_some hfind
    obtain ⟨p, hp, rfl⟩ := List.mem_map.1 (List.mem_of_find?_eq_some hfind)
    have hsame : p = (key, value) :=
      List.inj_on_of_nodup_map hkeys hp h (eq_of_hole_starts hkey hstarts)
    have hrest : (key.toList ++ ['\x7d']).length ≤ (hole key).toList.length - 1 := by
      simp [toList_hole]
    rw [replaceEach, Text.replaceEachFrom_of_find? hfind, hsame,
      Text.replaceEachFrom_of_length_le hrest, List.append_nil]

theorem inTurn_of_not_mem {w : List Char} (h : '\x7b' ∉ w) :
    ∀ params : List (String × String), inTurn params w = w
  | [] => rfl
  | p :: params => by rw [inTurn_cons, replaceEach_of_not_mem h, inTurn_of_not_mem h params]

theorem inTurn_hole_of_not_mem (hkey : Braceless key) : ∀ {params : List (String × String)},
    key ∉ params.map Prod.fst → inTurn params (hole key).toList = (hole key).toList
  | [], _ => rfl
  | p :: params, h => by
    have hp : key ∉ [p].map Prod.fst := fun hmem => h (by simp_all)
    rw [inTurn_cons, replaceEach_hole_of_not_mem hkey hp,
      inTurn_hole_of_not_mem hkey fun hmem => h (List.mem_cons_of_mem _ hmem)]

/-- A value in which no hole of the parameters stands is left as it is. -/
theorem inTurn_of_absent {cs : List Char} : ∀ {params : List (String × String)},
    (∀ p ∈ params, ¬ (hole p.1).toList <:+: cs) → inTurn params cs = cs
  | [], _ => rfl
  | p :: params, h => by
    obtain ⟨hp, hparams⟩ := List.forall_mem_cons.1 h
    rw [inTurn_cons, Text.replaceEach_of_absent, inTurn_of_absent hparams]
    exact List.forall_mem_singleton.2 hp

/-- In turn, a hole is filled by the value of its key and then by the later parameters. -/
theorem inTurn_hole_of_eq (hkey : Braceless key) {before after : List (String × String)}
    (hkeys : ((before ++ (key, value) :: after).map Prod.fst).Nodup) :
    inTurn (before ++ (key, value) :: after) (hole key).toList = inTurn after value.toList := by
  have hbefore : key ∉ before.map Prod.fst := by
    rw [List.map_append, List.map_cons] at hkeys
    exact fun hin => (List.nodup_append.1 hkeys).2.2 key hin key List.mem_cons_self rfl
  have hown : replaceEach (fillings [(key, value)]) (hole key).toList = value.toList :=
    replaceEach_hole_of_mem hkey (by simp) List.mem_cons_self
  rw [inTurn_append, inTurn_hole_of_not_mem hkey hbefore, inTurn_cons, hown]

/-! ### Templates -/

/-- The piece has no hole, or is one. -/
def isPiece (w : List Char) : Bool :=
  !w.contains '\x7b' ||
    w == '\x7b' :: (w.tail.dropLast ++ ['\x7d']) &&
      !w.tail.dropLast.contains '\x7b' && !w.tail.dropLast.contains '\x7d'

/-- The characters that a text is written with. Those of a literal are read off it, where
`String.toList` would decode it. -/
def Spelled (s : String) (cs : List Char) : Prop := s = String.ofList cs

theorem Spelled.append {s t : String} {cs ds : List Char} (hs : Spelled s cs) (ht : Spelled t ds) :
    Spelled (s ++ t) (cs ++ ds) := by
  rw [Spelled, hs, ht, String.ofList_append]

theorem Spelled.hole {cs : List Char} (h : Spelled key cs) :
    Spelled (Code.hole key) ('\x7b' :: (cs ++ ['\x7d'])) := by
  rw [Spelled, ← String.toList_inj, toList_hole, h, String.toList_ofList, String.toList_ofList]

/-- One hole more, with the text behind it. -/
theorem Spelled.more {s t : String} {cs ks ds : List Char} (hs : Spelled s cs)
    (hkey : Spelled key ks) (ht : Spelled t ds) :
    Spelled (s ++ Code.hole key ++ t) (cs ++ '\x7b' :: (ks ++ ['\x7d']) ++ ds) :=
  (hs.append hkey.hole).append ht

theorem Spelled.all_isPiece {s : String} {cs : List Char} (h : Spelled s cs)
    (hcs : (splitBy isGap cs).all isPiece = true) :
    (splitBy isGap s.toList).all isPiece = true := by
  rwa [h, String.toList_ofList]

/-- **The holes of every template stand apart** from its words. -/
theorem isPiece_template (c : Code) :
    (splitBy isGap c.template.toList).all isPiece = true := by
  -- by the number of holes, and whether one stands at the start or at the end
  cases c with
  | unrecognizedCommand | characterStateError | flowInvalid =>
    refine Spelled.all_isPiece (.append (.more rfl rfl rfl) (.hole rfl)) ?_
    decide +kernel
  | commandMissingArgument | characterStateEmpty | labelNotFound | labelDuplicate =>
    refine Spelled.all_isPiece (.more (.more rfl rfl rfl) rfl rfl) ?_
    decide +kernel
  | commandInvalidArgument | labelCrossFunction =>
    refine Spelled.all_isPiece (.more (.more (.more rfl rfl rfl) rfl rfl) rfl rfl) ?_
    decide +kernel
  | stateMergeCompensated =>
    refine Spelled.all_isPiece (.more (.more (.append (.hole rfl) rfl) rfl rfl) rfl rfl) ?_
    decide +kernel
  | _ =>
    refine Spelled.all_isPiece (.more rfl rfl rfl) ?_
    decide +kernel

theorem piece_cases {c : Code} {w : List Char} (h : w ∈ splitBy isGap c.template.toList) :
    '\x7b' ∉ w ∨ ∃ key, Braceless key ∧ w = (hole key).toList := by
  have hpiece := List.all_eq_true.1 c.isPiece_template w h
  rw [isPiece, Bool.or_eq_true] at hpiece
  rcases hpiece with hpiece | hpiece
  · exact .inl (by simpa using hpiece)
  · simp only [Bool.and_eq_true, beq_iff_eq, Bool.not_eq_true', List.contains_eq_mem,
      decide_eq_false_iff_not] at hpiece
    obtain ⟨⟨hw, hopen⟩, hclose⟩ := hpiece
    refine .inr ⟨String.ofList w.tail.dropLast, ?_, ?_⟩
    · rw [Braceless, String.toList_ofList]
      exact ⟨hopen, hclose⟩
    · rw [toList_hole, String.toList_ofList]
      exact hw

/-- What becomes of a piece of a template: it stays as it is, or it is the hole of a parameter, and
is filled by its value at once, and in turn by its value filled by the later parameters. -/
theorem piece_fate {c : Code} {w : List Char} (h : w ∈ splitBy isGap c.template.toList)
    (hkeys : (params.map Prod.fst).Nodup) :
    (inTurn params w = w ∧ replaceEach (fillings params) w = w) ∨
      ∃ before key value after, params = before ++ (key, value) :: after ∧ w = (hole key).toList ∧
        inTurn params w = inTurn after value.toList ∧
        replaceEach (fillings params) w = value.toList := by
  rcases piece_cases h with hbrace | ⟨key, hkey, rfl⟩
  · exact .inl ⟨inTurn_of_not_mem hbrace params, replaceEach_of_not_mem hbrace⟩
  · by_cases hmem : key ∈ params.map Prod.fst
    · obtain ⟨⟨key, value⟩, hp, rfl⟩ := List.mem_map.1 hmem
      have hfilled := replaceEach_hole_of_mem hkey hkeys hp
      obtain ⟨before, after, rfl⟩ := List.append_of_mem hp
      exact .inr ⟨before, key, value, after, rfl, rfl, inTurn_hole_of_eq hkey hkeys, hfilled⟩
    · exact .inl ⟨inTurn_hole_of_not_mem hkey hmem, replaceEach_hole_of_not_mem hkey hmem⟩

/-- A hole of a template for a word is a piece of it. -/
theorem Asks.piece {c : Code} (h : c.Asks key) (hword : isWord key = true) :
    Braceless key ∧ (hole key).toList ∈ splitBy isGap c.template.toList := by
  obtain ⟨w, hw, hin⟩ := Text.exists_piece_holding (isGap_of_mem_hole hword) _ h
  rcases piece_cases hw with hbrace | ⟨k, hk, rfl⟩
  · exact absurd (hin.subset (by simp [toList_hole])) hbrace
  · obtain rfl := eq_of_hole_within hk hin
    exact ⟨hk, hw⟩

/-! ### Messages -/

/-- Filled in turn, no piece of a template has fewer quotes and spaces than at once. -/
theorem countP_piece_le {c : Code} (hkeys : (params.map Prod.fst).Nodup)
    (hwords : ∀ p ∈ params, isWord p.1 = true) : ∀ w ∈ splitBy isGap c.template.toList,
      (replaceEach (fillings params) w).countP isGap ≤ (inTurn params w).countP isGap := by
  intro w hw
  rcases piece_fate hw hkeys with ⟨hturn, honce⟩ | ⟨before, key, value, after, rfl, -, hturn, honce⟩
  · rw [hturn, honce]
  · rw [hturn, honce]
    exact (piecewise_inTurn fun p hp => hwords p (by simp [hp])).countP_le value.toList

theorem message_eq_filled_iff_pieces {c : Code} (hkeys : (params.map Prod.fst).Nodup)
    (hwords : ∀ p ∈ params, isWord p.1 = true) : c.message params = c.filled params ↔
      ∀ w ∈ splitBy isGap c.template.toList,
        inTurn params w = replaceEach (fillings params) w := by
  rw [← String.toList_inj, toList_message, filled, String.toList_ofList]
  exact (piecewise_inTurn hwords).eq_iff (piecewise_atOnce hwords) (countP_piece_le hkeys hwords)

/-- No value that fills a hole of the template is changed by the parameters behind it. -/
def Settled (c : Code) (params : List (String × String)) : Prop :=
  ∀ before key value after, params = before ++ (key, value) :: after → c.Asks key →
    inTurn after value.toList = value.toList

theorem message_eq_filled_iff_settled {c : Code} (hkeys : (params.map Prod.fst).Nodup)
    (hwords : ∀ p ∈ params, isWord p.1 = true) :
    c.message params = c.filled params ↔ c.Settled params := by
  rw [message_eq_filled_iff_pieces hkeys hwords]
  constructor
  · rintro h before key value after rfl hasks
    obtain ⟨hkey, hpiece⟩ := hasks.piece (hwords (key, value) (by simp))
    have hfilled : replaceEach (fillings (before ++ (key, value) :: after)) (hole key).toList =
        value.toList := replaceEach_hole_of_mem hkey hkeys (by simp)
    have hsame := h _ hpiece
    rwa [inTurn_hole_of_eq hkey hkeys, hfilled] at hsame
  · intro h w hw
    rcases piece_fate hw hkeys with
      ⟨hturn, honce⟩ | ⟨before, key, value, after, hsplit, rfl, hturn, honce⟩
    · rw [hturn, honce]
    · rw [hturn, honce]
      exact h before key value after hsplit (Text.infix_of_mem_splitBy _ _ hw)

/-- At once, the order of the parameters does not matter. -/
theorem filled_perm {c : Code} {others : List (String × String)}
    (hkeys : (params.map Prod.fst).Nodup) (hwords : ∀ p ∈ params, isWord p.1 = true)
    (hperm : others.Perm params) : c.filled others = c.filled params := by
  have hothers : ∀ p ∈ others, isWord p.1 = true := fun p hp => hwords p (hperm.mem_iff.1 hp)
  refine congrArg String.ofList ?_
  refine (piecewise_atOnce hothers).eq_of_pieces (piecewise_atOnce hwords) _ fun w hw => ?_
  rcases piece_cases hw with hbrace | ⟨key, hkey, rfl⟩
  · rw [replaceEach_of_not_mem hbrace, replaceEach_of_not_mem hbrace]
  · by_cases hmem : key ∈ params.map Prod.fst
    · obtain ⟨⟨key, value⟩, hp, rfl⟩ := List.mem_map.1 hmem
      rw [replaceEach_hole_of_mem hkey hkeys hp,
        replaceEach_hole_of_mem hkey ((hperm.map Prod.fst).nodup_iff.2 hkeys) (hperm.mem_iff.2 hp)]
    · have hnot : key ∉ others.map Prod.fst := fun h => hmem ((hperm.map Prod.fst).mem_iff.1 h)
      rw [replaceEach_hole_of_not_mem hkey hmem, replaceEach_hole_of_not_mem hkey hnot]

/-- **A message is its template filled at once exactly if no value is changed** by the parameters
behind it. If no hole of a parameter stands in a value, it is so in every order of the
parameters. -/
theorem message_filled_iff (c : Code) (params : List (String × String))
    (hkeys : (params.map Prod.fst).Nodup) (hwords : ∀ p ∈ params, isWord p.1 = true) :
    (c.message params = c.filled params ↔ c.Settled params) ∧
      ((∀ p ∈ params, ∀ q ∈ params, ¬ (hole q.1).toList <:+: p.2.toList) →
        ∀ others, others.Perm params → c.message others = c.filled params) := by
  refine ⟨message_eq_filled_iff_settled hkeys hwords, fun hclear others hperm => ?_⟩
  have hothers : ∀ p ∈ others, isWord p.1 = true := fun p hp => hwords p (hperm.mem_iff.1 hp)
  rw [← filled_perm hkeys hwords hperm,
    message_eq_filled_iff_settled ((hperm.map Prod.fst).nodup_iff.2 hkeys) hothers]
  rintro before key value after rfl -
  refine inTurn_of_absent fun p hp => ?_
  exact hclear (key, value) (hperm.mem_iff.1 (by simp)) p (hperm.mem_iff.1 (by simp [hp]))

/-- Parameters whose values have braces and quotes, but no hole of one of them. -/
def braced : List (String × String) :=
  [("value", "\x7bchannel\x7d' for '"), ("arg", "\x7barg"), ("name", "value\x7d")]

theorem braced_message_filled : (braced.map Prod.fst).Nodup ∧
    (∀ p ∈ braced, isWord p.1 = true) ∧
    (∀ p ∈ braced, ∀ q ∈ braced, ¬ (hole q.1).toList <:+: p.2.toList) ∧
    ∀ others, others.Perm braced →
      commandInvalidArgument.message others = commandInvalidArgument.filled braced := by
  have hkeys : (braced.map Prod.fst).Nodup := by decide
  have hwords : ∀ p ∈ braced, isWord p.1 = true := by decide +kernel
  have hclear : ∀ p ∈ braced, ∀ q ∈ braced, ¬ (hole q.1).toList <:+: p.2.toList := by
    decide +kernel
  exact ⟨hkeys, hwords, hclear, (message_filled_iff _ braced hkeys hwords).2 hclear⟩

/-- A command whose name is the hole for the reason why it was not understood. -/
def selfReferring : List (String × String) :=
  [("name", "\x7breason\x7d"), ("reason", "value expected, got Eof")]

/-- The name is taken for a hole, and so the order of the parameters matters. -/
theorem selfReferring_message : (selfReferring.map Prod.fst).Nodup ∧
    unrecognizedCommand.message selfReferring =
      "command 'value expected, got Eof' could not be parsed completely: value expected, got Eof" ∧
    unrecognizedCommand.filled selfReferring =
      "command '\x7breason\x7d' could not be parsed completely: value expected, got Eof" ∧
    unrecognizedCommand.message selfReferring.reverse =
      unrecognizedCommand.filled selfReferring := by
  decide +kernel

end Manuscript.Code
