/-
# Scripts follow their graphs

The lines of a function, read as a machine, go from block to block as the
terminators of the function say, whatever the player chooses. In each block they
perform its body and its patch, or the patch of the arm that was chosen, and the
call that ends it. They never run into a block that is not next on the route, and
never past the last line.

A block is left along one edge. Control runs straight through its label and its
instructions (`run_straight`) and then does what its terminator became: a jump, a
return or a menu, or nothing where the next block is the one below. This is one
step of the route (`Layout.departs`), and a run is a chain of them. Only blocks
without lines take no step of the machine, and these go forward, so a run with
enough steps gets as far along the route as one likes.

The lines that are read so are the rows of the script's text: no line holds a line
break, whatever the document gives, so the text falls into them at its line ends
(`compile_follows`).

Key definitions: `Script.startOf`, `Script.Departs`, `Script.Passes`, `Script.Layout`,
`Script.Follows`.
Key theorems: `Script.Layout.control_jump`, `Script.Layout.departs`,
`Script.Layout.run_route`, `lower_follows`, `compile_follows`.
-/
import Manuscript.Proofs.Script.Confined
import Manuscript.Proofs.Script.Run

namespace Manuscript

/-- What holds one name for each of its elements has an element at most once by its name. -/
theorem findIdx?_of_nodup {α : Type} (name? : α → Option String) {xs : List α}
    (hnodup : (xs.filterMap name?).Nodup) {k : Nat} {x : α} {name : String}
    (hx : xs[k]? = some x) (hname : name? x = some name) :
    xs.findIdx? (name? · == some name) = some k := by
  obtain ⟨hlt, rfl⟩ := List.getElem?_eq_some_iff.1 hx
  refine List.findIdx?_eq_some_iff_getElem.2 ⟨hlt, by simpa using hname, fun j hj => ?_⟩
  have hpair := List.pairwise_iff_getElem.1 (List.pairwise_filterMap.1 hnodup) j k
    (Nat.lt_trans hj hlt) hlt hj
  simpa using fun hsame : name? xs[j] = some name => hpair name hsame name hname rfl

namespace Script

/-! ### Where blocks start -/

/-- The place of the first line of a part, among the lines of all parts. -/
def startOf (parts : List (List Line)) (i : Nat) : Nat := (parts.take i).flatten.length

section Start

variable {parts : List (List Line)} {i : Nat} {part : List Line}

theorem startOf_succ (h : parts[i]? = some part) :
    startOf parts (i + 1) = startOf parts i + part.length := by
  rw [startOf, List.take_add_one, h, List.flatten_append, List.length_append, startOf]
  simp

theorem startOf_cons_succ (part : List Line) (parts : List (List Line)) (i : Nat) :
    startOf (part :: parts) (i + 1) = part.length + startOf parts i := by
  simp [startOf]

theorem flatten_eq_of_getElem? (h : parts[i]? = some part) :
    parts.flatten = (parts.take i).flatten ++ (part ++ (parts.drop (i + 1)).flatten) := by
  obtain ⟨hlt, rfl⟩ := List.getElem?_eq_some_iff.1 h
  rw [← List.flatten_cons, List.getElem_cons_drop, ← List.flatten_append, List.take_append_drop]

theorem drop_startOf (h : parts[i]? = some part) (rest : List Line) :
    (parts.flatten ++ rest).drop (startOf parts i) =
      part ++ ((parts.drop (i + 1)).flatten ++ rest) := by
  rw [flatten_eq_of_getElem? h, List.append_assoc, startOf, List.drop_left, List.append_assoc]

/-- The rows of a part stand behind those of the lines in front and of the parts before it. -/
theorem rows_startOf (h : parts[i]? = some part) (width : Nat) (front : List Line)
    (rest : List (List Char)) : part.map (·.chars width) <+:
      ((front ++ parts.flatten).map (·.chars width) ++ rest).drop
        (front.length + startOf parts i) := by
  have hfront : ((front ++ (parts.take i).flatten).map (·.chars width)).length =
      front.length + startOf parts i := by
    rw [List.length_map, List.length_append, startOf]
  rw [flatten_eq_of_getElem? h, ← List.append_assoc front, List.map_append, List.append_assoc,
    List.drop_left' hfront, List.map_append, List.append_assoc]
  exact List.prefix_append _ _

end Start

/-! ### Arms below a menu -/

theorem armsBelow_deep (depth : Nat) (rest : List Line) : ∀ {part : List Line} (pos : Nat),
    (∀ l ∈ part, depth + 1 < l.depth) →
      armsBelow depth pos (part ++ rest) = armsBelow depth (pos + part.length) rest
  | [], _, _ => rfl
  | l :: part, pos, h => by
    have hl : depth + 1 < l.depth := h l List.mem_cons_self
    have ih := armsBelow_deep depth rest (pos + 1) fun m hm => h m (List.mem_cons_of_mem _ hm)
    rw [List.cons_append, armsBelow, if_neg (by omega), if_neg (by omega), ih, List.length_cons,
      Nat.add_right_comm, Nat.add_assoc]

section Arms

variable {s : CodegenSettings} {n : Names} {id : FunctionId} {f : GeneratedFunction}

theorem armsBelow_arm {e : Arm × List Inst} {part : List Line} (h : ArmWritten s n id f e part)
    (rest : List Line) (pos : Nat) :
    armsBelow 1 pos (part ++ rest) = pos :: armsBelow 1 (pos + part.length) rest := by
  obtain ⟨sts, target, -, -, rfl⟩ := h
  have hdeep : ∀ l ∈ atDepth 3 sts ++ [⟨3, .jump target⟩], 1 + 1 < l.depth := by
    intro l hl
    rcases List.mem_append.1 hl with hl | hl
    · obtain ⟨st, -, rfl⟩ := List.mem_map.1 hl
      exact Nat.lt_succ_self 2
    · rw [List.mem_singleton.1 hl]
      exact Nat.lt_succ_self 2
  have hchoice : ∀ more, armsBelow 1 pos (⟨2, .choice e.1.text⟩ :: more) =
      pos :: armsBelow 1 (pos + 1) more := fun more => by simp [armsBelow, Statement.isChoice]
  rw [List.cons_append, hchoice, armsBelow_deep 1 rest _ hdeep, List.length_cons,
    Nat.add_right_comm, Nat.add_assoc]

/-- The arms of a menu start where their lines do. -/
theorem armsBelow_arms {arms : List (Arm × List Inst)} {parts : List (List Line)}
    (h : List.Forall₂ (ArmWritten s n id f) arms parts) {rest : List Line}
    (hrest : ∀ l, rest.head? = some l → l.depth ≤ 1) (pos : Nat) :
    armsBelow 1 pos (parts.flatten ++ rest) =
      (List.range parts.length).map fun k => pos + startOf parts k := by
  induction h generalizing pos with
  | nil =>
    cases rest with
    | nil => rfl
    | cons l rest =>
      have hl : l.depth ≤ 1 := hrest l rfl
      simp [armsBelow, hl]
  | @cons e part arms parts hwritten _ ih =>
    rw [List.flatten_cons, List.append_assoc, armsBelow_arm hwritten, ih, List.length_cons,
      List.range_succ_eq_map, List.map_cons, List.map_map]
    refine congrArg (pos :: ·) (List.map_congr_left fun k _ => ?_)
    rw [Function.comp_apply, startOf_cons_succ, Nat.add_assoc]

end Arms

/-! ### Leaving a block -/

/-- Control at a place leaves the block in a number of steps and comes by some places on the
way. -/
def Departs (functions : List String) (blocks : List (List Line)) (pos : Nat) (choices : List Nat)
    (steps : Nat) (places : List Nat) : Departure → Prop
  | .enter _ next choices' => ∀ m, run functions (chapter blocks) (steps + m) pos choices =
      before places (run functions (chapter blocks) m (startOf blocks next) choices')
  | .done _ ending => ∀ m, run functions (chapter blocks) (steps + m) pos choices = (places, ending)

section Departs

variable {functions : List String} {blocks : List (List Line)} {pos steps : Nat}
  {choices places : List Nat} {d : Departure}

/-- Lines that do not steer may stand before. -/
theorem Departs.straight {part : List Line} (hat : part <+: (chapter blocks).drop pos)
    (hon : ∀ l ∈ part, l.statement.steers = false)
    (h : Departs functions blocks (pos + part.length) choices steps places d) :
    Departs functions blocks pos choices (part.length + steps)
      (List.range' pos part.length ++ places) d := by
  cases d with
  | enter e next choices' =>
    intro m
    rw [Nat.add_assoc, run_straight _ _ hat hon, h m, before_before]
  | done e ending =>
    intro m
    rw [Nat.add_assoc, run_straight _ _ hat hon, h m]
    rfl

/-- A menu goes on in the arm that was chosen. -/
theorem Departs.choose {arms : List Nat} {k arm : Nat}
    (hmenu : control functions (chapter blocks) pos = .choose arms) (hk : arms[k]? = some arm)
    (h : Departs functions blocks (arm + 1) choices steps places d) :
    Departs functions blocks pos (k :: choices) (steps + 1) (pos :: arm :: places) d := by
  cases d with
  | enter e next choices' =>
    intro m
    rw [Nat.add_right_comm, run, hmenu]
    dsimp only
    rw [hk]
    dsimp only
    rw [h m, before_before]
    rfl
  | done e ending =>
    intro m
    rw [Nat.add_right_comm, run, hmenu]
    dsimp only
    rw [hk]
    dsimp only
    rw [h m]
    rfl

end Departs

/-- What a terminator performs: a call. -/
def callOf (n : Names) : Terminator → List Statement
  | .call g => n.functions[g]?.toList.map .call
  | _ => []

/-- The places are those of a passage through a block along an edge: they are lines of the block
in their order, and what is performed there are the instructions along the edge and the call. -/
structure Passes (s : CodegenSettings) (n : Names) (f : GeneratedFunction)
    (blocks : List (List Line)) (e : Edge) (places : List Nat) : Prop where
  inside : ∃ ls, blocks[e.source]? = some ls ∧
    places.Sublist (List.range' (startOf blocks e.source) ls.length)
  performs : ∃ b sts, f.blocks[e.source]? = some b ∧ Performs s n (b.along e.arm) sts ∧
    performed (chapter blocks) places = sts ++ callOf n b.terminator

/-! ### A function in a script -/

/-- `blocks` are the lines of the function `f` in a script. -/
structure Layout (s : CodegenSettings) (p : Program) (g : Generated) (id : FunctionId)
    (f : GeneratedFunction) (blocks : List (List Line)) : Prop where
  code : g.functions[id]? = some f
  wired : ∀ f ∈ g.functions, f.Wired g.functions.length
  script : ∃ chapters, AllWritten s p g chapters ∧ chapters[id]? = some blocks

namespace Layout

variable {s : CodegenSettings} {p : Program} {g : Generated} {id : FunctionId}
  {f : GeneratedFunction} {blocks : List (List Line)}

theorem written (h : Layout s p g id f blocks) : FunctionWritten s (Names.of p g) id f blocks := by
  obtain ⟨chapters, hwritten, hblocks⟩ := h.script
  obtain ⟨blocks', hblocks', hfunction⟩ := getElem?_of_zipIdx hwritten h.code
  rw [hblocks] at hblocks'
  cases hblocks'
  exact hfunction

theorem wiredSelf (h : Layout s p g id f blocks) : f.Wired g.functions.length :=
  h.wired f (List.mem_of_getElem? h.code)

theorem block (h : Layout s p g id f blocks) {i : BlockId} {b : GeneratedBlock}
    (hb : f.blocks[i]? = some b) : ∃ ls sts out, blocks[i]? = some ls ∧
      BlockWritten s (Names.of p g) id f b i sts out ls := by
  obtain ⟨ls, hls, hlines⟩ := getElem?_of_zipIdx h.written hb
  obtain ⟨sts, out, hwritten⟩ := blockWritten_of_ok hlines
  exact ⟨ls, sts, out, hls, hwritten⟩

theorem isPrefix {i : Nat} {ls : List Line} (h : blocks[i]? = some ls) :
    ls <+: (chapter blocks).drop (startOf blocks i) :=
  ⟨_, (drop_startOf h _).symm⟩

/-! ### Jumps -/

/-- **A jump lands at its target.** -/
theorem control_jump (h : Layout s p g id f blocks) {t : Target} {name : String} {pos depth : Nat}
    (ht : f.Has g.functions.length t) (hname : targetLabel (Names.of p g) id f t = .ok name)
    (hpos : (chapter blocks)[pos]? = some ⟨depth, .jump name⟩) :
    control (Names.of p g).functions (chapter blocks) pos = match t with
      | .block i => .goto (startOf blocks i)
      | .function k => .leave k := by
  rw [control, hpos]
  dsimp only
  cases t with
  | function k =>
    have hk : (Names.of p g).functions[k]? = some name := Fault.unless_eq_ok.1 hname
    have hfind := findIdx?_of_nodup some
      (by simpa using Names.nodup_functions p g) hk rfl
    have hfind : (Names.of p g).functions.findIdx? (· == name) = some k := by simpa using hfind
    rw [hfind]
  | block i =>
    obtain ⟨chapters, hwritten, hblocks⟩ := h.script
    obtain ⟨rest, hlines, -⟩ := hwritten.headsTarget h.wired h.code ht hname
    rw [linesAt?, hblocks] at hlines
    have hstart := getElem?_of_isPrefix (isPrefix hlines)
    obtain ⟨-, l, -, rfl, -⟩ := blockLabel?_of_targetLabel h.wiredSelf ht hname
    have houtside : (Names.of p g).functions.findIdx? (· == (Names.of p g).labelName id l) = none := by
      rw [List.findIdx?_eq_none_iff]
      intro name hmem
      have hne : name ≠ (Names.of p g).labelName id l := fun heq =>
        Names.labelName_not_mem_functions h.code l (heq ▸ hmem)
      simpa using hne
    have hnodup : (labelsOf (chapter blocks)).Nodup := by
      rw [labelsOf_function h.wiredSelf h.written]
      exact nodup_functionLabels h.code h.wiredSelf
    rw [houtside]
    dsimp only
    rw [findIdx?_of_nodup (fun l : Line => l.statement.label?) hnodup hstart rfl]

theorem departs_jump (h : Layout s p g id f blocks) {t : Target} {name : String} {pos depth : Nat}
    (ht : f.Has g.functions.length t) (hname : targetLabel (Names.of p g) id f t = .ok name)
    (hpos : (chapter blocks)[pos]? = some ⟨depth, .jump name⟩) (e : Edge) (choices : List Nat) :
    Departs (Names.of p g).functions blocks pos choices 1 [pos] (t.depart e choices) := by
  have hcontrol := h.control_jump ht hname hpos
  cases t with
  | block i =>
    intro m
    rw [Nat.add_comm, run, hcontrol]
  | function k =>
    intro m
    rw [Nat.add_comm, run, hcontrol]

end Layout

/-! ### The parts of a block -/

section Parts

variable {s : CodegenSettings} {n : Names} {id : FunctionId} {f : GeneratedFunction}

/-- The first of the lines, if there is one, is no deeper than the statements of a block. -/
def Shallow (ls : List Line) : Prop := ∀ l, ls.head? = some l → l.depth ≤ 1

theorem Shallow.append {a b : List Line} (ha : Shallow a) (hb : Shallow b) : Shallow (a ++ b) := by
  intro l hl
  cases a with
  | nil => exact hb l hl
  | cons l' a => exact ha l hl

theorem shallow_of_forall {ls : List Line} (h : ∀ l ∈ ls, l.depth ≤ 1) : Shallow ls :=
  fun l hl => h l (List.mem_of_head? hl)

theorem shallow_flatten : ∀ {parts : List (List Line)}, (∀ part ∈ parts, Shallow part) →
    Shallow parts.flatten
  | [], _ => fun l hl => by cases hl
  | part :: parts, h => by
    rw [List.flatten_cons]
    exact (h part List.mem_cons_self).append
      (shallow_flatten fun q hq => h q (List.mem_cons_of_mem _ hq))

theorem shallow_terminatorLines {i : BlockId} {b : GeneratedBlock} {ls : List Line}
    (h : terminatorLines s n id f i b = .ok ls) : Shallow ls := by
  have hone : ∀ (st : Statement) (rest : List Line), Shallow (⟨1, st⟩ :: rest) := by
    rintro st rest l ⟨rfl⟩
    exact Nat.le_refl 1
  unfold terminatorLines at h
  split at h
  · obtain ⟨name, -, h⟩ := bind_eq_ok.1 h
    cases h
    exact hone _ _
  · obtain ⟨name, -, h⟩ := bind_eq_ok.1 h
    cases h
    exact hone _ _
  · split at h
    · cases h
      exact fun l hl => by cases hl
    · obtain ⟨name, -, h⟩ := bind_eq_ok.1 h
      cases h
      exact hone _ _
  · obtain ⟨armLines, -, h⟩ := bind_eq_ok.1 h
    cases h
    exact hone _ _
  · cases h
    exact hone _ _

/-- The lines of a block before its exit. -/
def opening (label : Option String) (sts : List Statement) : List Line :=
  heading label ++ atDepth 1 sts

variable {b : GeneratedBlock} {i : BlockId} {sts : List Statement} {out ls : List Line}

theorem shallow_block (h : BlockWritten s n id f b i sts out ls) : Shallow ls := by
  have hheading : ∀ l ∈ heading (blockLabel? n id i b), l.depth ≤ 1 := by
    intro l hl
    obtain ⟨name, -, rfl⟩ := List.mem_map.1 hl
    exact Nat.zero_le 1
  have hbody : ∀ l ∈ atDepth 1 sts, l.depth ≤ 1 := by
    intro l hl
    obtain ⟨st, -, rfl⟩ := List.mem_map.1 hl
    exact Nat.le_refl 1
  have hpadding : ∀ label rest, Shallow (padding label rest) := by
    intro label rest
    unfold padding
    split
    · rintro l ⟨rfl⟩
      exact Nat.le_refl 1
    · exact fun l hl => by cases hl
  rw [h.lines]
  exact (((shallow_of_forall hheading).append (shallow_of_forall hbody)).append
    (shallow_terminatorLines h.exit)).append (hpadding _ _)

theorem Statement.steers_of_acts {st : Statement} (h : st.acts = true) : st.steers = false := by
  cases st <;> first | rfl | cases h

theorem steers_atDepth {depth : Nat} {is : List Inst} (h : Performs s n is sts) :
    ∀ l ∈ atDepth depth sts, l.statement.steers = false := by
  intro l hl
  obtain ⟨st, hst, rfl⟩ := List.mem_map.1 hl
  exact Statement.steers_of_acts (h.acts st hst).1

theorem acts_atDepth {depth : Nat} {is : List Inst} (h : Performs s n is sts) :
    ((atDepth depth sts).map (·.statement)).filter (·.acts) = sts := by
  have hsts : (atDepth depth sts).map (·.statement) = sts := by
    rw [atDepth, List.map_map]
    exact List.map_id sts
  rw [hsts, List.filter_eq_self]
  exact fun st hst => (h.acts st hst).1

theorem steers_opening {is : List Inst} (h : Performs s n is sts) (label : Option String) :
    ∀ l ∈ opening label sts, l.statement.steers = false := by
  refine List.forall_mem_append.2 ⟨fun l hl => ?_, steers_atDepth h⟩
  obtain ⟨name, -, rfl⟩ := List.mem_map.1 hl
  rfl

theorem acts_opening {is : List Inst} (h : Performs s n is sts) (label : Option String) :
    ((opening label sts).map (·.statement)).filter (·.acts) = sts := by
  rw [opening, List.map_append, List.filter_append, acts_atDepth h]
  cases label <;> rfl

theorem Performs.append {is js : List Inst} {sts sts' : List Statement} (h : Performs s n is sts)
    (h' : Performs s n js sts') : Performs s n (is ++ js) (sts ++ sts') := by
  obtain ⟨each, heach, rfl⟩ := h
  obtain ⟨each', heach', rfl⟩ := h'
  refine ⟨each ++ each', ?_, List.flatten_append.symm⟩
  rw [List.mapM_append, heach, heach']
  rfl

/-- A block whose exit has a line has no other lines behind it. -/
theorem lines_of_exit {l : Line} {rest : List Line}
    (h : BlockWritten s n id f b i sts (l :: rest) ls) :
    ls = opening (blockLabel? n id i b) sts ++ l :: rest := by
  have hpadding : padding (blockLabel? n id i b) (atDepth 1 sts ++ l :: rest) = [] := by
    simp [padding]
  rw [h.lines, hpadding, List.append_nil]
  rfl

end Parts

theorem range'_sublist {pos skip a b : Nat} (h : skip + a ≤ b) :
    (List.range' (pos + skip) a).Sublist (List.range' pos b) := by
  obtain ⟨c, rfl⟩ := Nat.exists_eq_add_of_le h
  rw [← List.range'_append_1, ← List.range'_append_1, List.append_assoc]
  exact (List.sublist_append_left _ _).trans (List.sublist_append_right _ _)

namespace Layout

variable {s : CodegenSettings} {p : Program} {g : Generated} {id : FunctionId}
  {f : GeneratedFunction} {blocks : List (List Line)} {i : BlockId} {b : GeneratedBlock}
  {ls : List Line} {sts : List Statement}

/-- One step of a route: control leaves block `i` as its terminator says. -/
def DepartsFrom (s : CodegenSettings) (p : Program) (g : Generated) (f : GeneratedFunction)
    (blocks : List (List Line)) (i : BlockId) (choices : List Nat) (d : Departure) : Prop :=
  ∃ steps places, Departs (Names.of p g).functions blocks (startOf blocks i) choices steps places d ∧
    Passes s (Names.of p g) f blocks d.edge places ∧
    (0 < steps ∨ ∃ e choices', d = .enter e (i + 1) choices')

/-- Control falls through a block that does not steer into the next. -/
theorem departs_fall {out : List Line} (hb : f.blocks[i]? = some b) (hls : blocks[i]? = some ls)
    (hw : BlockWritten s (Names.of p g) id f b i sts out ls)
    (hout : (out.map (·.statement)).filter (·.acts) = callOf (Names.of p g) b.terminator)
    (hsteers : ∀ l ∈ out, l.statement.steers = false) (choices : List Nat) :
    DepartsFrom s p g f blocks i choices (.enter ⟨i, none⟩ (i + 1) choices) := by
  have hpadding : ∀ label rest, (∀ l ∈ padding label rest, l.statement.steers = false) ∧
      ((padding label rest).map (·.statement)).filter (·.acts) = [] := by
    intro label rest
    unfold padding
    split <;> simp [Statement.steers, Statement.acts]
  have hlines := hw.lines
  have hon : ∀ l ∈ ls, l.statement.steers = false := by
    rw [hlines]
    exact List.forall_mem_append.2 ⟨List.forall_mem_append.2
      ⟨steers_opening hw.performs _, hsteers⟩, (hpadding _ _).1⟩
  have hacts : (ls.map (·.statement)).filter (·.acts) =
      sts ++ callOf (Names.of p g) b.terminator := by
    have hopening := acts_opening hw.performs (blockLabel? (Names.of p g) id i b)
    rw [opening] at hopening
    rw [hlines, List.map_append, List.map_append, List.filter_append, List.filter_append, hopening,
      hout, (hpadding _ _).2, List.append_nil]
  refine ⟨ls.length, List.range' (startOf blocks i) ls.length, fun m => ?_, ⟨?_, ?_⟩, .inr ⟨_, _, rfl⟩⟩
  · rw [run_straight _ _ (isPrefix hls) hon, startOf_succ hls]
  · exact ⟨ls, hls, List.Sublist.refl _⟩
  · exact ⟨b, sts, hb, hw.performs, by rw [performed_range' (isPrefix hls), hacts]⟩

/-- Control runs through a block to its exit, and from there on as its first line says. -/
theorem departs_exit {l : Line} {rest : List Line} (arm : Option Nat) (steps : Nat)
    {choices places : List Nat} {more : List Statement} {d : Departure}
    (hb : f.blocks[i]? = some b) (hls : blocks[i]? = some ls)
    (hw : BlockWritten s (Names.of p g) id f b i sts (l :: rest) ls)
    (hd : Departs (Names.of p g).functions blocks
      (startOf blocks i + (opening (blockLabel? (Names.of p g) id i b) sts).length) choices
      (steps + 1) places d)
    (hedge : d.edge = ⟨i, arm⟩)
    (hinside : places.Sublist (List.range'
      (startOf blocks i + (opening (blockLabel? (Names.of p g) id i b) sts).length)
      (l :: rest).length))
    (hperformed : performed (chapter blocks) places = more)
    (hperforms : Performs s (Names.of p g) (b.along arm) (sts ++ more))
    (hcall : callOf (Names.of p g) b.terminator = []) :
    DepartsFrom s p g f blocks i choices d := by
  have hlines := lines_of_exit hw
  have hat : opening (blockLabel? (Names.of p g) id i b) sts <+:
      (chapter blocks).drop (startOf blocks i) :=
    (isPrefix_of_append (hlines ▸ isPrefix hls)).1
  refine ⟨_, _, hd.straight hat (steers_opening hw.performs _), ⟨?_, ?_⟩, .inl (by omega)⟩
  · rw [hedge]
    refine ⟨ls, hls, ?_⟩
    rw [hlines, List.length_append, ← List.range'_append_1]
    exact hinside.append_left _
  · rw [hedge]
    refine ⟨b, sts ++ more, hb, hperforms, ?_⟩
    rw [performed_append, performed_range' hat, acts_opening hw.performs, hperformed, hcall,
      List.append_nil]

/-- The place of the first line of the exit of a block. -/
theorem getElem?_exit {l : Line} {rest : List Line} (hls : blocks[i]? = some ls)
    (hw : BlockWritten s (Names.of p g) id f b i sts (l :: rest) ls) :
    (chapter blocks)[startOf blocks i +
      (opening (blockLabel? (Names.of p g) id i b) sts).length]? = some l := by
  have hat := isPrefix hls
  rw [lines_of_exit hw] at hat
  exact getElem?_of_isPrefix (isPrefix_of_append hat).2

/-- A block whose exit is one line that steers. -/
theorem departs_line {l : Line} {rest : List Line} {choices : List Nat} {d : Departure}
    (hb : f.blocks[i]? = some b) (hls : blocks[i]? = some ls)
    (hw : BlockWritten s (Names.of p g) id f b i sts (l :: rest) ls)
    (hl : l.statement.acts = false) (hcall : callOf (Names.of p g) b.terminator = [])
    (hedge : d.edge = ⟨i, none⟩)
    (hd : Departs (Names.of p g).functions blocks
      (startOf blocks i + (opening (blockLabel? (Names.of p g) id i b) sts).length) choices 1
      [startOf blocks i + (opening (blockLabel? (Names.of p g) id i b) sts).length] d) :
    DepartsFrom s p g f blocks i choices d := by
  have hperformed : performed (chapter blocks)
      [startOf blocks i + (opening (blockLabel? (Names.of p g) id i b) sts).length] = [] := by
    rw [performed, List.filterMap_cons, getElem?_exit hls hw]
    simp [hl]
  refine departs_exit none 0 hb hls hw hd hedge ?_ hperformed ?_ hcall
  · rw [List.length_cons, List.range'_succ]
    exact List.singleton_sublist.2 List.mem_cons_self
  · rw [List.append_nil]
    exact hw.performs

/-! ### Menus -/

/-- What stands behind a block is no deeper than the statements of a block. -/
theorem shallow_behind (h : Layout s p g id f blocks) (k : Nat) :
    Shallow ((blocks.drop k).flatten ++ [⟨0, .blank⟩]) := by
  refine Shallow.append (shallow_flatten fun ls hls => ?_) ?_
  · obtain ⟨i, hi⟩ := List.mem_iff_getElem?.1 (List.mem_of_mem_drop hls)
    obtain ⟨b, -, hlines⟩ := exists_of_getElem?_zipIdx h.written hi
    obtain ⟨sts, out, hw⟩ := blockWritten_of_ok hlines
    exact shallow_block hw
  · rintro l ⟨rfl⟩
    exact Nat.zero_le 1

/-- The lines below a menu are those of its arms, and what stands behind the block. -/
theorem drop_menu {parts : List (List Line)} (hls : blocks[i]? = some ls)
    (hw : BlockWritten s (Names.of p g) id f b i sts (⟨1, .menu⟩ :: parts.flatten) ls) {pos : Nat}
    (hpos : pos = startOf blocks i + (opening (blockLabel? (Names.of p g) id i b) sts).length) :
    (chapter blocks).drop (pos + 1) =
      parts.flatten ++ ((blocks.drop (i + 1)).flatten ++ [⟨0, .blank⟩]) := by
  have hdrop := drop_startOf hls [⟨0, .blank⟩]
  rw [lines_of_exit hw, List.append_assoc] at hdrop
  rw [← List.drop_drop, hpos, ← List.drop_drop, chapter, hdrop, List.drop_left]
  rfl

/-- A menu offers its arms at the places where their lines start. -/
theorem control_menu (h : Layout s p g id f blocks) {arms : List (Arm × List Inst)}
    {parts : List (List Line)} (hls : blocks[i]? = some ls)
    (hw : BlockWritten s (Names.of p g) id f b i sts (⟨1, .menu⟩ :: parts.flatten) ls)
    (hparts : List.Forall₂ (ArmWritten s (Names.of p g) id f) arms parts) {pos : Nat}
    (hpos : pos = startOf blocks i + (opening (blockLabel? (Names.of p g) id i b) sts).length) :
    control (Names.of p g).functions (chapter blocks) pos =
      .choose ((List.range parts.length).map fun k => pos + 1 + startOf parts k) := by
  have hmenu := getElem?_exit hls hw
  rw [control, hpos, hmenu, ← hpos]
  dsimp only
  rw [drop_menu hls hw hpos, armsBelow_arms hparts (h.shallow_behind _)]

theorem startOf_add_length_le {parts : List (List Line)} {k : Nat} {part : List Line}
    (h : parts[k]? = some part) : startOf parts k + part.length ≤ parts.flatten.length := by
  rw [← startOf_succ h, startOf]
  conv_rhs => rw [← List.take_append_drop (k + 1) parts, List.flatten_append, List.length_append]
  exact Nat.le_add_right _ _

/-- Arms and their patches are written side by side. -/
theorem exists_part {arms : List Arm} {parts : List (List Line)} {k : Nat} {a : Arm}
    (hlength : b.armPatches.length = arms.length)
    (hparts : List.Forall₂ (ArmWritten s (Names.of p g) id f) (arms.zip b.armPatches) parts)
    (ha : arms[k]? = some a) : ∃ patch part, b.armPatches[k]? = some patch ∧
      parts[k]? = some part ∧ ArmWritten s (Names.of p g) id f (a, patch) part := by
  have hk : k < b.armPatches.length := by
    rw [hlength]
    exact (List.getElem?_eq_some_iff.1 ha).1
  have hpatch := List.getElem?_eq_getElem hk
  have hzip : (arms.zip b.armPatches)[k]? = some (a, b.armPatches[k]) :=
    List.getElem?_zip_eq_some.2 ⟨ha, hpatch⟩
  obtain ⟨hkzip, hpair⟩ := List.getElem?_eq_some_iff.1 hzip
  have hkparts : k < parts.length := hparts.length_eq ▸ hkzip
  have harm := hparts.get hkzip hkparts
  rw [List.get_eq_getElem, hpair] at harm
  exact ⟨_, _, hpatch, List.getElem?_eq_getElem hkparts, harm⟩

/-- A menu goes on as the arm says that was chosen. -/
theorem departs_arm (h : Layout s p g id f blocks) {arms : List Arm} {parts : List (List Line)}
    {k : Nat} {a : Arm} (hb : f.blocks[i]? = some b) (hterm : b.terminator = .branch arms)
    (hls : blocks[i]? = some ls)
    (hw : BlockWritten s (Names.of p g) id f b i sts (⟨1, .menu⟩ :: parts.flatten) ls)
    (hparts : List.Forall₂ (ArmWritten s (Names.of p g) id f) (arms.zip b.armPatches) parts)
    (ha : arms[k]? = some a) (choices : List Nat) :
    DepartsFrom s p g f blocks i (k :: choices) (a.target.depart ⟨i, some k⟩ choices) := by
  obtain ⟨hnone, hlength⟩ := h.wiredSelf.arms b (List.mem_of_getElem? hb) arms hterm
  obtain ⟨patch, part, hpatch, hpart, sts', target, hperforms, htarget, hlines⟩ :=
    exists_part hlength hparts ha
  have hhas : f.Has g.functions.length a.target := by
    refine h.wiredSelf.leads b (List.mem_of_getElem? hb) _ ?_
    rw [hterm]
    exact List.mem_map_of_mem (List.mem_of_getElem? ha)
  obtain ⟨pos, hpos⟩ : ∃ pos, pos =
    startOf blocks i + (opening (blockLabel? (Names.of p g) id i b) sts).length := ⟨_, rfl⟩
  obtain ⟨start, hstart⟩ : ∃ start, start = pos + 1 + startOf parts k := ⟨_, rfl⟩
  have hmenu := h.control_menu hls hw hparts hpos
  have harm : ((List.range parts.length).map fun k => pos + 1 + startOf parts k)[k]? =
      some start := by
    simp [hstart, (List.getElem?_eq_some_iff.1 hpart).1]
  -- The lines of the arm: its text, its patch and its jump.
  have hat : part <+: (chapter blocks).drop start := by
    rw [hstart, ← List.drop_drop, drop_menu hls hw hpos, drop_startOf hpart]
    exact List.prefix_append _ _
  have hbelow : atDepth 3 sts' ++ [⟨3, .jump target⟩] <+: (chapter blocks).drop (start + 1) := by
    rw [hlines] at hat
    exact (isPrefix_of_append (a := [⟨2, .choice a.text⟩]) hat).2
  obtain ⟨hbody, hjump⟩ := isPrefix_of_append hbelow
  have hleave := h.departs_jump hhas htarget (getElem?_of_isPrefix hjump) ⟨i, some k⟩ choices
  have hdeparts := (hleave.straight hbody (steers_atDepth hperforms)).choose hmenu harm
  have hplaces : start :: (List.range' (start + 1) (atDepth 3 sts').length ++
      [start + 1 + (atDepth 3 sts').length]) = List.range' start part.length := by
    rw [hlines, List.length_cons, List.length_append, List.range'_succ, List.length_singleton,
      List.range'_1_concat]
  rw [hplaces] at hdeparts
  have hperformed : performed (chapter blocks) (pos :: List.range' start part.length) = sts' := by
    have hfirst : performed (chapter blocks) [pos] = [] := by
      rw [performed, List.filterMap_cons, hpos, getElem?_exit hls hw]
      rfl
    rw [← List.singleton_append, performed_append, hfirst, performed_range' hat, hlines,
      List.map_cons, List.map_append, List.filter_cons_of_neg (by simp [Statement.acts]),
      List.filter_append, acts_atDepth hperforms]
    exact List.append_nil _
  subst hpos
  refine departs_exit (some k) _ hb hls hw hdeparts ?_ ?_ hperformed ?_ ?_
  · cases a.target <;> rfl
  · have hinside := startOf_add_length_le hpart
    rw [List.length_cons, List.range'_succ, hstart]
    exact (range'_sublist hinside).cons_cons _
  · have hbodies := hw.performs
    rw [hnone, List.append_nil] at hbodies
    rw [GeneratedBlock.along, hpatch]
    exact hbodies.append hperforms
  · rw [hterm]
    rfl

/-- **A block is left as its terminator says**, whatever the player chooses. -/
theorem departs (h : Layout s p g id f blocks) (hb : f.blocks[i]? = some b) (choices : List Nat) :
    DepartsFrom s p g f blocks i choices (b.terminator.depart i choices) := by
  obtain ⟨ls, sts, out, hls, hw⟩ := h.block hb
  have hleads := h.wiredSelf.leads b (List.mem_of_getElem? hb)
  have hexit := hw.exit
  unfold terminatorLines at hexit
  cases hterm : b.terminator with
  | jumpFunction k =>
    rw [hterm] at hexit hleads
    obtain ⟨name, hname, hexit⟩ := bind_eq_ok.1 hexit
    cases hexit
    refine departs_line hb hls hw rfl (by rw [hterm]; rfl) rfl ?_
    exact h.departs_jump (hleads _ List.mem_cons_self) hname (getElem?_exit hls hw) ⟨i, none⟩ choices
  | call k =>
    rw [hterm] at hexit
    obtain ⟨name, hname, hexit⟩ := bind_eq_ok.1 hexit
    cases hexit
    refine departs_fall hb hls hw ?_ (by simp [Statement.steers]) choices
    rw [hterm, callOf, Fault.unless_eq_ok.1 hname]
    rfl
  | jump t =>
    rw [hterm] at hexit hleads
    dsimp only at hexit
    by_cases ht : t = i + 1
    · rw [if_pos ht] at hexit
      cases hexit
      rw [Terminator.depart, ht]
      exact departs_fall hb hls hw (by rw [hterm]; rfl) (by simp) choices
    · rw [if_neg ht] at hexit
      obtain ⟨name, hname, hexit⟩ := bind_eq_ok.1 hexit
      cases hexit
      refine departs_line hb hls hw rfl (by rw [hterm]; rfl) rfl ?_
      exact h.departs_jump (hleads _ List.mem_cons_self) hname (getElem?_exit hls hw) ⟨i, none⟩ choices
  | branch arms =>
    rw [hterm] at hexit
    obtain ⟨armLines, harms, hexit⟩ := bind_eq_ok.1 hexit
    cases hexit
    obtain ⟨parts, hparts, rfl⟩ := armLines_eq_ok harms
    have hmenu := h.control_menu hls hw hparts rfl
    have hlength := (h.wiredSelf.arms b (List.mem_of_getElem? hb) arms hterm).2
    cases choices with
    | nil =>
      refine departs_line hb hls hw rfl (by rw [hterm]; rfl) rfl fun m => ?_
      rw [Nat.add_comm, run, hmenu]
    | cons k choices =>
      rw [Terminator.depart]
      cases ha : arms[k]? with
      | some a => exact h.departs_arm hb hterm hls hw hparts ha choices
      | none =>
        have hk : ¬ k < parts.length := by
          rw [← hparts.length_eq, List.length_zip, hlength, Nat.min_self]
          exact Nat.not_lt.2 (List.getElem?_eq_none_iff.1 ha)
        refine departs_line hb hls hw rfl (by rw [hterm]; rfl) rfl fun m => ?_
        rw [Nat.add_comm, run, hmenu]
        simp [hk]
  | ret =>
    rw [hterm] at hexit
    cases hexit
    refine departs_line hb hls hw rfl (by rw [hterm]; rfl) rfl fun m => ?_
    rw [Nat.add_comm, run, control, getElem?_exit hls hw]

/-! ### Routes -/

/-- Control leaves a block for one that there is, or for good. -/
theorem depart_cases (h : Layout s p g id f blocks) (hb : f.blocks[i]? = some b)
    (choices : List Nat) :
    (∃ e next choices', b.terminator.depart i choices = .enter e next choices' ∧
      next < f.blocks.length) ∨
    ∃ e ending, b.terminator.depart i choices = .done e ending ∧ ending ≠ .going ∧
      ending ≠ .astray := by
  have hleads := h.wiredSelf.leads b (List.mem_of_getElem? hb)
  have htarget : ∀ (t : Target) e choices, f.Has g.functions.length t →
      (∃ e' next choices', t.depart e choices = .enter e' next choices' ∧ next < f.blocks.length) ∨
      ∃ e' ending, t.depart e choices = .done e' ending ∧ ending ≠ .going ∧ ending ≠ .astray := by
    intro t e choices ht
    cases t with
    | block j =>
      obtain ⟨c, hc, -⟩ := ht
      exact .inl ⟨_, _, _, rfl, (List.getElem?_eq_some_iff.1 hc).1⟩
    | function k => exact .inr ⟨_, _, rfl, by simp, by simp⟩
  cases hterm : b.terminator with
  | jumpFunction k => exact .inr ⟨_, _, rfl, by simp, by simp⟩
  | call k => exact .inl ⟨_, _, _, rfl, h.wiredSelf.continues i b k hb hterm⟩
  | jump t =>
    rw [hterm] at hleads
    exact htarget (.block t) ⟨i, none⟩ choices (hleads _ List.mem_cons_self)
  | branch arms =>
    rw [hterm] at hleads
    unfold Terminator.depart
    cases choices with
    | nil => exact .inr ⟨_, _, rfl, by simp, by simp⟩
    | cons k choices =>
      dsimp only
      cases ha : arms[k]? with
      | none => exact .inr ⟨_, _, rfl, by simp, by simp⟩
      | some a =>
        exact htarget _ _ _ (hleads _ (List.mem_map_of_mem (List.mem_of_getElem? ha)))
  | ret => exact .inr ⟨_, _, rfl, by simp, by simp⟩

/-- **Lines follow the route.** The passages through the blocks on the route are what the lines
run through. A block without lines is passed in no step, but there are no more of these in a row
than the function has blocks. -/
theorem run_route (h : Layout s p g id f blocks) : ∀ (n : Nat) (i : BlockId) (choices : List Nat),
    i < f.blocks.length → ∃ steps passages,
      List.Forall₂ (Passes s (Names.of p g) f blocks)
        (Terminator.route (f.blocks.map (·.terminator)) n i choices).1 passages ∧
      run (Names.of p g).functions (chapter blocks) steps (startOf blocks i) choices =
        (passages.flatten, (Terminator.route (f.blocks.map (·.terminator)) n i choices).2) ∧
      (Terminator.route (f.blocks.map (·.terminator)) n i choices).2 ≠ .astray ∧
      ((Terminator.route (f.blocks.map (·.terminator)) n i choices).2 = .going →
        n ≤ steps * (f.blocks.length + 1) + (f.blocks.length - i))
  | 0, i, choices, _ => ⟨0, [], .nil, rfl, by simp [Terminator.route], fun _ => Nat.zero_le _⟩
  | n + 1, i, choices, hi => by
    have hb := List.getElem?_eq_getElem hi
    have hterm : (f.blocks.map (·.terminator))[i]? = some f.blocks[i].terminator := by
      rw [List.getElem?_map, hb, Option.map_some]
    obtain ⟨steps, places, hdeparts, hpasses, hadvance⟩ := h.departs hb choices
    rw [Terminator.route, hterm]
    dsimp only
    rcases h.depart_cases hb choices with ⟨e, next, choices', hd, hnext⟩ | ⟨e, ending, hd, hgoing, hastray⟩
    · rw [hd] at hdeparts hpasses hadvance ⊢
      obtain ⟨steps', passages, hall, hrun, hastray, hbound⟩ := run_route h n next choices' hnext
      refine ⟨steps + steps', places :: passages, .cons hpasses hall, ?_, hastray, fun hgoing => ?_⟩
      · rw [hdeparts steps', hrun]
        rfl
      · have hle : n ≤ steps' * (f.blocks.length + 1) + (f.blocks.length - next) := hbound hgoing
        rw [Nat.add_mul]
        rcases hadvance with hpos | ⟨e', choices'', he⟩
        · have hstep : f.blocks.length + 1 ≤ steps * (f.blocks.length + 1) :=
            Nat.le_mul_of_pos_left _ hpos
          omega
        · obtain rfl : next = i + 1 := (Departure.enter.inj he).2.1
          have hleft : 0 < f.blocks.length - i := Nat.sub_pos_of_lt hi
          omega
    · rw [hd] at hdeparts hpasses ⊢
      refine ⟨steps, [places], .cons hpasses .nil, ?_, hastray, fun h => absurd h hgoing⟩
      have hrun := hdeparts 0
      rw [Nat.add_zero] at hrun
      rw [hrun, List.flatten_singleton]

end Layout

/-- The lines of the blocks of a function follow its graph, for all choices of the player. -/
structure Follows (s : CodegenSettings) (n : Names) (graph : FlowGraph) (f : GeneratedFunction)
    (blocks : List (List Line)) : Prop where
  /-- However far the route is followed, the lines get there by passing through its blocks. -/
  reaches : ∀ (length : Nat) (choices : List Nat), ∃ steps passages,
    List.Forall₂ (Passes s n f blocks) (graph.route length choices).1 passages ∧
      run n.functions (chapter blocks) steps 0 choices =
        (passages.flatten, (graph.route length choices).2)
  /-- However far the lines run, they are on the way through the blocks of the route, or at its
  end. -/
  stays : ∀ (steps : Nat) (choices : List Nat), ∃ length passages,
    List.Forall₂ (Passes s n f blocks) (graph.route length choices).1 passages ∧
      (run n.functions (chapter blocks) steps 0 choices).1 <+: passages.flatten ∧
      ((run n.functions (chapter blocks) steps 0 choices).2 = .going ∨
        run n.functions (chapter blocks) steps 0 choices =
          (passages.flatten, (graph.route length choices).2))
  /-- The route always leads to blocks that there are. -/
  leads : ∀ (length : Nat) (choices : List Nat), (graph.route length choices).2 ≠ .astray

theorem Layout.follows {s : CodegenSettings} {p : Program} {g : Generated} {id : FunctionId}
    {f : GeneratedFunction} {blocks : List (List Line)} (h : Layout s p g id f blocks)
    {graph : FlowGraph} (hgraph : graph.blocks.map (·.terminator) = f.blocks.map (·.terminator)) :
    Follows s (Names.of p g) graph f blocks := by
  have hpos : 0 < f.blocks.length := List.length_pos_of_ne_nil h.wiredSelf.nonempty
  have hroute : ∀ length choices, graph.route length choices =
      Terminator.route (f.blocks.map (·.terminator)) length 0 choices := fun length choices => by
    rw [FlowGraph.route, hgraph]
  constructor
  case reaches =>
    intro length choices
    obtain ⟨steps, passages, hall, hrun, -⟩ := h.run_route length 0 choices hpos
    rw [← hroute] at hall hrun
    exact ⟨steps, passages, hall, hrun⟩
  case stays =>
    intro steps choices
    -- A route that long, unless it ends, takes more steps.
    obtain ⟨length, hlength⟩ : ∃ length, length =
      steps * (f.blocks.length + 1) + f.blocks.length + 1 := ⟨_, rfl⟩
    obtain ⟨steps', passages, hall, hrun, -, hbound⟩ := h.run_route length 0 choices hpos
    rw [← hroute] at hall hrun hbound
    refine ⟨length, passages, hall, ?_⟩
    have hstart : startOf blocks 0 = 0 := rfl
    rw [hstart] at hrun
    rcases Nat.le_total steps steps' with hle | hle
    · obtain ⟨j, rfl⟩ := Nat.exists_eq_add_of_le hle
      have hadd := run_add (Names.of p g).functions (chapter blocks) j steps 0 choices
      rw [hrun] at hadd
      exact ⟨hadd.1, hadd.2.imp (fun hgoing => hgoing) Eq.symm⟩
    · obtain ⟨j, rfl⟩ := Nat.exists_eq_add_of_le hle
      have hadd := run_add (Names.of p g).functions (chapter blocks) j steps' 0 choices
      rw [hrun] at hadd
      have hdone : (graph.route length choices).2 ≠ .going := fun hgoing => by
        have hle := hbound hgoing
        rw [hlength, Nat.add_mul] at hle
        omega
      have hsame := hadd.2.resolve_left hdone
      rw [hsame]
      exact ⟨List.prefix_rfl, .inr rfl⟩
  case leads =>
    intro length choices
    obtain ⟨-, -, -, -, hastray, -⟩ := h.run_route length 0 choices hpos
    rwa [hroute]

end Script

/-- The lines of a program are those before its functions and then those of the functions, which
follow their graphs. -/
theorem Program.Stages.follows {c : CodegenSettings} {a : Assembly} {g : Generated}
    {ls : List Script.Line} {p : Program} (h : p.Stages c a g ls) :
    ∃ chapters, ls = Script.preamble p g c (Script.Names.of p g) ++
        (chapters.map Script.chapter).flatten ∧
      Script.AllWritten c p g chapters ∧
      g.functions.length = p.functions.length ∧ chapters.length = p.functions.length ∧
      ∀ (id : FunctionId) graph f blocks, p.functions[id]? = some graph →
        g.functions[id]? = some f → chapters[id]? = some blocks →
        Script.functionLines c (Script.Names.of p g) f id = .ok (Script.chapter blocks) ∧
        Script.Follows c (Script.Names.of p g) graph f blocks := by
  obtain ⟨chapters, hwritten, hls⟩ := Script.lines_eq_ok h.lines
  have hchapters : g.functions.length = chapters.length := by
    rw [← hwritten.length_eq, List.length_zipIdx]
  have hfunctions := h.visited.length_eq
  refine ⟨chapters, hls, hwritten, hfunctions.symm, hchapters.symm.trans hfunctions.symm, ?_⟩
  intro id graph f blocks hgraph hf hblocks
  have hlayout : Script.Layout c p g id f blocks := ⟨hf, h.wired, chapters, hwritten, hblocks⟩
  obtain ⟨hlt, rfl⟩ := List.getElem?_eq_some_iff.1 hgraph
  obtain ⟨hlt', rfl⟩ := List.getElem?_eq_some_iff.1 hf
  obtain ⟨visits, hv⟩ := h.visited.get hlt hlt'
  exact ⟨Script.functionLines_eq_ok.2 ⟨blocks, hlayout.written, rfl⟩,
    hlayout.follows hv.terminators.symm⟩

/-- **Scripts follow their graphs.** Every program that is lowered from a document is generated
and written, and the lines of each of its functions follow the function's graph. -/
theorem lower_follows (d : Document) (s : Settings) (c : CodegenSettings) :
    ∃ p ds g chapters, lower d s = .ok (p, ds) ∧ generate p c = .ok g ∧
      Script.lines p g c = .ok (Script.preamble p g c (Script.Names.of p g) ++
        (chapters.map Script.chapter).flatten) ∧
      Script.AllWritten c p g chapters ∧
      g.functions.length = p.functions.length ∧ chapters.length = p.functions.length ∧
      ∀ (id : FunctionId) graph f blocks, p.functions[id]? = some graph →
        g.functions[id]? = some f → chapters[id]? = some blocks →
        Script.functionLines c (Script.Names.of p g) f id = .ok (Script.chapter blocks) ∧
        Script.Follows c (Script.Names.of p g) graph f blocks := by
  obtain ⟨⟨p, ds⟩, hlower, a, g, ls, -, -, hstages⟩ := yields_stages d s c
  obtain ⟨chapters, rfl, hfollows⟩ := hstages.follows
  exact ⟨p, ds, g, chapters, hlower, hstages.generated, hstages.lines, hfollows⟩

/-- **The text of a script follows the graphs.** Every document compiles to a script that falls at
its line ends into the lines before its functions and then those of the functions, one function
after the other; behind the last there is nothing. From the row on where a function starts, the
rows are its lines, and these follow its graph. -/
theorem compile_follows (d : Document) (s : Settings) :
    ∃ c g chapters, compile d s = .ok c ∧ generate c.program s.codegen = .ok g ∧
      Script.AllWritten s.codegen c.program g chapters ∧
      chapters.length = c.program.functions.length ∧
      Script.rows c.script =
        (Script.preamble c.program g s.codegen (Script.Names.of c.program g) ++
          (chapters.map Script.chapter).flatten).map (·.chars s.codegen.indentWidth) ++ [[]] ∧
      ∀ (id : FunctionId) graph blocks, c.program.functions[id]? = some graph →
        chapters[id]? = some blocks →
        (Script.chapter blocks).map (·.chars s.codegen.indentWidth) <+: (Script.rows c.script).drop
          ((Script.preamble c.program g s.codegen (Script.Names.of c.program g)).length +
            Script.startOf (chapters.map Script.chapter) id) ∧
        ∃ f, g.functions[id]? = some f ∧
          Script.Follows s.codegen (Script.Names.of c.program g) graph f blocks := by
  obtain ⟨c, hc, a, g, ls, ha, hstages, hscript⟩ := yields_compile d s
  have htame := hstages.tame (Assembly.sound_of_ofDocument ha)
  have hrows := Script.rows_render_of_tame htame s.codegen.indentWidth
  rw [← hscript] at hrows
  obtain ⟨chapters, rfl, hwritten, hfunctions, hchapters, hfollows⟩ := hstages.follows
  refine ⟨c, g, chapters, hc, hstages.generated, hwritten, hchapters, hrows, ?_⟩
  intro id graph blocks hgraph hblocks
  have hchapter : (chapters.map Script.chapter)[id]? = some (Script.chapter blocks) := by
    rw [List.getElem?_map, hblocks, Option.map_some]
  have hlt : id < g.functions.length := hfunctions ▸ (List.getElem?_eq_some_iff.1 hgraph).1
  have hf := List.getElem?_eq_getElem hlt
  refine ⟨?_, _, hf, (hfollows id graph _ blocks hgraph hf hblocks).2⟩
  rw [hrows]
  exact Script.rows_startOf hchapter _ _ _

end Manuscript
