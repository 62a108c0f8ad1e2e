/-
# Where tables and lists go

While a document is read, a table or list is given to the last command of the item before
it. Seen from the commands, this is a look ahead: a command line looks past the blocks that
carry nothing for the first table or list, and its last command gets that one
(`Item.items_ofDocument`). No other command has one, each table or list is given once or
not at all, and nothing else about an item depends on the blocks around it
(`Item.ofDocument_attaches`).

Key definitions: `Block.CarriesNothing`, `Document.item?`, `Item.Ahead`, `Item.Next`,
`Item.Takes`, `Item.Attaches`, `Document.next?`, `Document.settled?`.
Key theorems: `Document.item?_eq_none_iff`, `Document.next?_eq_some_iff`,
`Item.items_readFrom_eq`, `Item.Takes.lt`, `Item.ofDocument_attaches`.
-/
import Manuscript.Proofs.Assembly.Built

namespace Manuscript

/-! ### Commands as they are read -/

/-- The command without its table or list. -/
def Command.detached (c : Command) : Command := { c with attachment := none }

theorem Command.detached_eq {c : Command} (h : c.attachment = none) : c.detached = c := by
  rw [Command.detached, ← h]

theorem Command.attachment_of_parse? {interior : String} {loc : Loc} {element : Nat} {c : Command}
    {ds : List Diagnostic} (h : parse? interior loc element = some (c, ds)) : c.attachment = none := by
  obtain ⟨⟨name, rest⟩, -, h⟩ := Option.bind_eq_some_iff.1 h
  dsimp only at h
  split at h <;> cases h <;> rfl

theorem Bracketed.commands_ne_nil {text : String} {block : Nat} {segments : List Segment}
    {cs : List Command} {ds : List Diagnostic}
    (hsegments : Segment.ofLine? text.toList = some segments)
    (h : ofSegments text.toList block segments = .commands cs ds) : cs ≠ [] := by
  rintro rfl
  obtain ⟨d, hd, rfl⟩ := Segment.ofLine?_eq_some_iff.1 hsegments
  obtain ⟨p, ps, hparts⟩ := List.exists_cons_of_ne_nil hd.1.nonempty
  rw [CommandLine.placed, hparts, CommandLine.placedFrom, List.map_cons, ofSegments] at h
  split at h
  · cases h
  · split at h
    · cases h
    · rename_i hother
      exact hother _ _ h

/-- A command line has a command, and no command of it has a table or list yet. -/
theorem Line.bare_of_read {text : String} {block limit : Nat} {cs : List Command}
    (h : (Line.read text block limit).1 = .commands cs) :
    cs ≠ [] ∧ ∀ c ∈ cs, c.attachment = none := by
  obtain ⟨segments, ds, hsegments, hcommands⟩ := Line.exists_segments h
  refine ⟨Bracketed.commands_ne_nil hsegments hcommands, fun c hc => ?_⟩
  obtain ⟨interior, loc, element, parsed, es, hparse, hsame⟩ := Line.exists_parse? h hc
  have hnone := Command.attachment_of_parse? hparse
  rw [hsame]
  exact hnone

theorem Line.ofLine?_read_eq_none_iff {text : String} {block limit : Nat} :
    Item.ofLine? (Line.read text block limit).1 = none ↔ Text.allBlank text = true := by
  have hprose : Item.ofLine? (Line.readProse text limit) ≠ none := by
    unfold Line.readProse
    split <;> simp [Item.ofLine?]
  unfold Line.read
  split
  · rename_i hblank
    simp [hblank, Item.ofLine?]
  · rename_i hblank
    refine iff_of_false ?_ hblank
    split
    · simp [Item.ofLine?]
    · exact hprose
    · exact hprose

/-! ### What a block is an item of -/

/-- The block is no item: a table or list, or a block without text, unless it has media and is
copied as it stands or shown. -/
def Block.CarriesNothing (b : Block) : Prop :=
  b.attachment ≠ none ∨
    Text.allBlank b.plain = true ∧ (b.media = [] ∨ b.isVerbatim = false ∧ b.isDisplay = false)

namespace Document

/-- The table or list at a place of the document. -/
def table? (d : Document) (j : Nat) : Option Attachment := (d.blocks[j]?).bind (·.attachment)

/-- What the block at a place is an item of, read on its own; a table or list is no item. -/
def item? (limit : Nat) (d : Document) (i : Nat) : Option ItemContent :=
  (d.blocks[i]?).bind fun b => if b.attachment.isNone then (Item.ofBlock? limit i b).1 else none

variable {limit : Nat} {d : Document} {i : Nat} {b : Block} {content : ItemContent}

theorem table?_eq (hb : d.blocks[i]? = some b) : d.table? i = b.attachment := by
  rw [table?, hb]
  rfl

theorem item?_eq (hb : d.blocks[i]? = some b) (ha : b.attachment = none) :
    d.item? limit i = (Item.ofBlock? limit i b).1 := by
  simp [item?, hb, ha]

theorem item?_of_attachment {a : Attachment} (hb : d.blocks[i]? = some b)
    (ha : b.attachment = some a) : d.item? limit i = none := by
  simp [item?, hb, ha]

/-- **What is no item** can be told without reading the text. -/
theorem item?_eq_none_iff (hb : d.blocks[i]? = some b) :
    d.item? limit i = none ↔ b.CarriesNothing := by
  cases ha : b.attachment with
  | some a => simp [item?_of_attachment hb ha, Block.CarriesNothing, ha]
  | none =>
    rw [item?_eq hb ha, Item.ofBlock?]
    simp only [Block.CarriesNothing, Block.isBlank, ha, Option.isNone_none, Bool.true_and,
      Bool.and_eq_true, List.isEmpty_iff, ne_eq, not_true_eq_false, false_or]
    split
    · rename_i hblank
      exact iff_of_true rfl ⟨hblank.2, .inl hblank.1⟩
    · rename_i hblank
      split
      · rename_i hverbatim
        exact iff_of_false nofun fun h => h.2.elim (fun hm => hblank ⟨hm, h.1⟩) (by simp [hverbatim])
      · rename_i hverbatim
        split
        · rename_i hdisplay
          exact iff_of_false nofun fun h => h.2.elim (fun hm => hblank ⟨hm, h.1⟩) (by simp [hdisplay])
        · rename_i hdisplay
          refine Line.ofLine?_read_eq_none_iff.trans ⟨fun h => ⟨h, .inr ?_⟩, And.left⟩
          simp [hverbatim, hdisplay]

theorem lt_length_of_item? (h : d.item? limit i = some content) : i < d.blocks.length := by
  obtain ⟨b, hb, -⟩ := Option.bind_eq_some_iff.1 h
  exact (List.getElem?_eq_some_iff.1 hb).1

theorem bare_of_item? {cs : List Command} (h : d.item? limit i = some (.commands cs)) :
    cs ≠ [] ∧ ∀ c ∈ cs, c.attachment = none := by
  obtain ⟨b, -, hown⟩ := Option.bind_eq_some_iff.1 h
  split at hown
  · cases (Item.carries_of_ofBlock? hown).2 with
    | commands hread => exact Line.bare_of_read hread
  · cases hown

end Document

/-! ### Looking ahead -/

namespace Item

/-- The table or list `a` stands at `j`, with only blocks that carry nothing between `i` and it. -/
structure Ahead (d : Document) (i j : Nat) (a : Attachment) : Prop where
  lt : i < j
  table : d.table? j = some a
  between : ∀ k b, i < k → k < j → d.blocks[k]? = some b → b.CarriesNothing

/-- The first table or list ahead of the block at `i`. -/
structure Next (d : Document) (i j : Nat) (a : Attachment) : Prop where
  ahead : Ahead d i j a
  first : ∀ k x, Ahead d i k x → j ≤ k

/-- The block at `i` is a command line, and the first table or list ahead of it is at `j`. -/
def Takes (limit : Nat) (d : Document) (i j : Nat) : Prop :=
  (∃ cs, d.item? limit i = some (.commands cs)) ∧ ∃ a, Next d i j a

/-- The item without the tables and lists that its commands have. -/
def detached (it : Item) : Item :=
  match it.content with
  | .commands cs => ⟨it.block, .commands (cs.map Command.detached)⟩
  | _ => it

/-- The tables and lists that the commands of an item have. -/
def attachments (it : Item) : List Attachment :=
  match it.content with
  | .commands cs => cs.filterMap (·.attachment)
  | _ => []

/-- The items are the blocks of the document as they read on their own, but for the tables and
lists: the last command of a line has the first one ahead of the line, and no other command has
any. Those that some command has are told by their places, each of them once. -/
structure Attaches (limit : Nat) (d : Document) (items : List Item) : Prop where
  alone : items.map detached =
    (List.range d.blocks.length).filterMap fun i => (d.item? limit i).map (⟨i, ·⟩)
  given : ∀ it ∈ items, ∀ cs, it.content = .commands cs → ∀ k c, cs[k]? = some c →
    ∀ a, c.attachment = some a ↔ k + 1 = cs.length ∧ ∃ j, Next d it.block j a
  once : ∃ taken : List (Nat × Nat), (∀ i j, (i, j) ∈ taken ↔ Takes limit d i j) ∧
    taken.Pairwise (fun p q => p.1 < q.1 ∧ p.2 < q.2) ∧
    items.flatMap attachments = taken.filterMap fun p => d.table? p.2

/-- The first table or list of some blocks, with its place, unless an item comes before it. -/
def next? (limit : Nat) : Nat → List Block → Option (Nat × Attachment)
  | _, [] => none
  | i, b :: bs =>
    match b.attachment with
    | some a => some (i, a)
    | none => if (ofBlock? limit i b).1.isSome then none else next? limit (i + 1) bs

variable {limit : Nat} {d : Document} {i j k : Nat} {a x : Attachment} {b : Block}
  {bs : List Block} {cs : List Command}

/-- What is left of the blocks starts with the block at the place. -/
theorem drop_eq_cons (h : d.blocks.drop i = b :: bs) :
    d.blocks[i]? = some b ∧ d.blocks.drop (i + 1) = bs := by
  constructor
  · rw [← List.head?_drop, h]
    rfl
  · rw [← List.tail_drop, h]
    rfl

theorem Ahead.unique (h : Ahead d i j a) (h' : Ahead d i j x) : a = x :=
  Option.some.inj (h.table.symm.trans h'.table)

/-- A block that carries nothing and is no table or list is looked past. -/
theorem ahead_succ_iff (hb : d.blocks[i + 1]? = some b) (hnothing : b.CarriesNothing)
    (hnone : b.attachment = none) : Ahead d i j a ↔ Ahead d (i + 1) j a := by
  constructor
  · rintro ⟨hlt, hj, hbetween⟩
    have hne : j ≠ i + 1 := by
      rintro rfl
      rw [Document.table?_eq hb, hnone] at hj
      cases hj
    exact ⟨by omega, hj, fun k b hk => hbetween k b (by omega)⟩
  · rintro ⟨hlt, hj, hbetween⟩
    refine ⟨by omega, hj, fun k b' hk hkj hb' => ?_⟩
    rcases Nat.lt_or_ge (i + 1) k with h | h
    · exact hbetween k b' h hkj hb'
    · obtain rfl : k = i + 1 := by omega
      rwa [← Option.some.inj (hb.symm.trans hb')]

/-- Nobody looks past an item. -/
theorem Ahead.lt_of_item (h : Ahead d i j a) (hb : d.blocks[k]? = some b)
    (hnothing : ¬ b.CarriesNothing) (hlt : i < k) : j < k := by
  have hne : j ≠ k := by
    rintro rfl
    have hj := h.table
    rw [Document.table?_eq hb] at hj
    exact hnothing (.inl (by simp [hj]))
  have hle : ¬ k < j := fun hk => hnothing (h.between k b hlt hk hb)
  omega

theorem next?_iff : ∀ {bs : List Block} {i : Nat}, d.blocks.drop (i + 1) = bs →
    (next? limit (i + 1) bs = some (j, a) ↔ Next d i j a)
  | [], i, hbs => by
    refine iff_of_false nofun fun h => ?_
    obtain ⟨b, hb, -⟩ := Option.bind_eq_some_iff.1 h.ahead.table
    have hj := (List.getElem?_eq_some_iff.1 hb).1
    have hlt := h.ahead.lt
    have hlength := List.drop_eq_nil_iff.1 hbs
    omega
  | b :: bs, i, hbs => by
    obtain ⟨hb, hrest⟩ := drop_eq_cons hbs
    rw [next?]
    -- a table or list is the first one ahead, an item hides what follows, the rest is looked past
    cases ha : b.attachment with
    | some x =>
      have hhere : Ahead d i (i + 1) x :=
        ⟨Nat.lt_succ_self i, (Document.table?_eq hb).trans ha, fun k b hk hk' => by omega⟩
      dsimp only
      constructor
      · rintro ⟨⟩
        exact ⟨hhere, fun k y h => h.lt⟩
      · intro h
        obtain rfl : j = i + 1 := Nat.le_antisymm (h.first _ _ hhere) h.ahead.lt
        rw [h.ahead.unique hhere]
    | none =>
      have hitem : (ofBlock? limit (i + 1) b).1 = none ↔ b.CarriesNothing := by
        rw [← Document.item?_eq hb ha]
        exact Document.item?_eq_none_iff hb
      dsimp only
      cases hown : (ofBlock? limit (i + 1) b).1 with
      | some content =>
        have hnothing : ¬ b.CarriesNothing := fun h => by simp [hitem.2 h] at hown
        refine iff_of_false nofun fun h => ?_
        have hlt := h.ahead.lt
        have hitem := h.ahead.lt_of_item hb hnothing (Nat.lt_succ_self i)
        omega
      | none =>
        have hahead : ∀ {j a}, Ahead d i j a ↔ Ahead d (i + 1) j a :=
          ahead_succ_iff hb (hitem.1 hown) ha
        rw [if_neg (by simp), next?_iff hrest]
        constructor
        · exact fun h => ⟨hahead.2 h.ahead, fun k y hk => h.first k y (hahead.1 hk)⟩
        · exact fun h => ⟨hahead.1 h.ahead, fun k y hk => h.first k y (hahead.2 hk)⟩

/-- From a command line further on one finds a table or list further on: the line is an item, so
the first one does not look past it. -/
theorem Takes.lt {i' j' : Nat} (h : Takes limit d i j) (h' : Takes limit d i' j') (hlt : i < i') :
    j < j' := by
  obtain ⟨-, a, hnext⟩ := h
  obtain ⟨⟨cs, hcs⟩, a', hnext'⟩ := h'
  obtain ⟨b, hb, -⟩ := Option.bind_eq_some_iff.1 hcs
  have hnothing : ¬ b.CarriesNothing := fun h => by
    rw [(Document.item?_eq_none_iff hb).2 h] at hcs
    cases hcs
  have hitem := hnext.ahead.lt_of_item hb hnothing hlt
  exact Nat.lt_trans hitem hnext'.ahead.lt

end Item

namespace Document

/-- The first table or list ahead of the block at a place, with its own place. -/
def next? (limit : Nat) (d : Document) (i : Nat) : Option (Nat × Attachment) :=
  Item.next? limit (i + 1) (d.blocks.drop (i + 1))

/-- **Looking ahead finds the first table or list ahead.** -/
theorem next?_eq_some_iff {limit : Nat} {d : Document} {i j : Nat} {a : Attachment} :
    d.next? limit i = some (j, a) ↔ Item.Next d i j a := Item.next?_iff rfl

theorem exists_next?_iff {limit : Nat} {d : Document} {i : Nat} {a : Attachment} :
    (d.next? limit i).map Prod.snd = some a ↔ ∃ j, Item.Next d i j a := by
  rw [Option.map_eq_some_iff]
  constructor
  · rintro ⟨⟨j, x⟩, hnext, rfl⟩
    exact ⟨j, next?_eq_some_iff.1 hnext⟩
  · rintro ⟨j, hnext⟩
    exact ⟨(j, a), next?_eq_some_iff.2 hnext, rfl⟩

end Document

/-! ### Items in their final form -/

/-- Gives a table or list, if there is one, to the last command of a line. -/
def ItemContent.give (a : Option Attachment) : ItemContent → ItemContent
  | .commands cs => .commands (a.elim cs (Item.attachLast · cs))
  | content => content

/-- The item at a place with the table or list that is ahead of it. -/
def Document.settled? (limit : Nat) (d : Document) (i : Nat) : Option Item :=
  (d.item? limit i).map fun content => ⟨i, content.give ((d.next? limit i).map Prod.snd)⟩

namespace Item

variable {limit : Nat} {d : Document} {i : Nat} {a x : Attachment} {cs : List Command}

/-- The last item is given the table or list that comes next, if one does. -/
def attachNext (next : Option (Nat × Attachment)) (items : List Item) : List Item :=
  next.elim items (attach ·.2 items)

theorem attachLast_attachLast (a x : Attachment) :
    ∀ cs : List Command, attachLast x (attachLast a cs) = attachLast a cs
  | [] => rfl
  | [c] => by
    cases hc : c.attachment <;> simp [attachLast, hc]
  | c :: e :: rest => by
    have ih := attachLast_attachLast a x (e :: rest)
    obtain ⟨y, more, hy⟩ : ∃ y more, attachLast a (e :: rest) = y :: more := by
      cases rest <;> exact ⟨_, _, rfl⟩
    rw [attachLast, hy, attachLast, ← hy, ih]

/-- Only the first table or list behind an item is given to it. -/
theorem attach_attach (a x : Attachment) :
    ∀ items : List Item, attach x (attach a items) = attach a items
  | [] => rfl
  | [⟨block, content⟩] => by
    cases content with
    | commands cs => simp only [attach, attachLast_attachLast]
    | say _ | narration | verbatim | display => rfl
  | it :: y :: rest => by
    have ih := attach_attach a x (y :: rest)
    obtain ⟨z, more, hz⟩ : ∃ z more, attach a (y :: rest) = z :: more := by
      obtain ⟨block, content⟩ := y
      cases rest <;> cases content <;> exact ⟨_, _, rfl⟩
    rw [attach, hz, attach, ← hz, ih]

theorem attachNext_append (next : Option (Nat × Attachment)) (items : List Item) (content : ItemContent)
    (i : Nat) :
    attachNext next (items ++ [⟨i, content⟩]) =
      items ++ [⟨i, content.give (next.map Prod.snd)⟩] := by
  cases next with
  | none => cases content <;> rfl
  | some n =>
    rw [attachNext, Option.elim_some, attach_append _ (by simp)]
    cases content <;> rfl

/-- **Reading on gives the last item so far what is ahead of it, and adds the items to come in
their final form.** -/
theorem items_readFrom_eq : ∀ {bs : List Block} {i : Nat} {r : Reading}, d.blocks.drop i = bs →
    (readFrom limit i bs r).items =
      attachNext (next? limit i bs) r.items ++ (List.range' i bs.length).filterMap (d.settled? limit)
  | [], i, r, _ => by simp [readFrom, next?, attachNext]
  | b :: bs, i, r, hbs => by
    obtain ⟨hb, hrest⟩ := drop_eq_cons hbs
    have hahead : next? limit (i + 1) bs = d.next? limit i := by rw [Document.next?, hrest]
    rw [readFrom, items_readFrom_eq hrest, List.length_cons, List.range'_succ, next?]
    cases ha : b.attachment with
    | some a =>
      have hsettled : d.settled? limit i = none := by
        rw [Document.settled?, Document.item?_of_attachment hb ha]
        rfl
      -- the last item has its table or list now, and is given no other
      have hgiven : attachNext (next? limit (i + 1) bs) (attach a r.items) = attach a r.items := by
        cases next? limit (i + 1) bs with
        | none => rfl
        | some n => exact attach_attach a n.2 r.items
      rw [List.filterMap_cons_none hsettled, Reading.step, ha]
      dsimp only
      rw [hgiven]
      rfl
    | none =>
      rw [items_step ha, ofBlock, ← Document.item?_eq hb ha]
      dsimp only
      cases hitem : d.item? limit i with
      | none =>
        have hsettled : d.settled? limit i = none := by
          rw [Document.settled?, hitem]
          rfl
        rw [List.filterMap_cons_none hsettled]
        simp
      | some content =>
        have hsettled : d.settled? limit i =
            some ⟨i, content.give ((d.next? limit i).map Prod.snd)⟩ := by
          rw [Document.settled?, hitem]
          rfl
        -- the new item is the last one, so what comes next is for it and not for the one before
        rw [List.filterMap_cons_some hsettled, Option.map_some, Option.toList_some, attachNext_append,
          hahead, List.append_assoc]
        rfl

/-- **The items of a document are settled one by one**, each by its own block and the first table
or list ahead of it. -/
theorem items_ofDocument (limit : Nat) (d : Document) :
    (ofDocument limit d).items = (List.range d.blocks.length).filterMap (d.settled? limit) := by
  rw [ofDocument_eq, items_readFrom_eq List.drop_zero, List.range_eq_range']
  cases next? limit 0 d.blocks <;> rfl

theorem attachLast_concat {last : Command} (h : last.attachment = none) : ∀ init : List Command,
    attachLast a (init ++ [last]) = init ++ [{ last with attachment := some a }]
  | [] => by simp [attachLast, h]
  | c :: init => by
    have ih := attachLast_concat h init
    obtain ⟨y, rest, hy⟩ : ∃ y rest, init ++ [last] = y :: rest :=
      List.exists_cons_of_ne_nil (by simp)
    rw [hy] at ih
    rw [List.cons_append, hy, attachLast, ih, List.cons_append]

/-- What is given to a command line as it was read becomes the table or list of its last command. -/
theorem exists_give (hitem : d.item? limit i = some (.commands cs)) :
    ∃ init last, cs = init ++ [last] ∧ (∀ c ∈ init, c.attachment = none) ∧
      last.attachment = none ∧ ∀ a, (ItemContent.commands cs).give a =
        .commands (init ++ [{ last with attachment := a }]) := by
  obtain ⟨hne, hbare⟩ := Document.bare_of_item? hitem
  obtain ⟨init, last, rfl⟩ := (List.eq_nil_or_concat' cs).resolve_left hne
  have hlast : last.attachment = none := hbare last (by simp)
  refine ⟨init, last, rfl, fun c hc => hbare c (List.mem_append_left _ hc), hlast, fun a => ?_⟩
  cases a with
  | none =>
    have hsame : { last with attachment := none } = last := Command.detached_eq hlast
    rw [hsame]
    rfl
  | some a => exact congrArg _ (attachLast_concat hlast init)

/-! ### The rule -/

/-- The table or list of an item aside, it is its block as it reads on its own. -/
theorem detached_settled? (i : Nat) :
    (d.settled? limit i).map detached = (d.item? limit i).map (⟨i, ·⟩) := by
  rw [Document.settled?, Option.map_map]
  cases hitem : d.item? limit i with
  | none => rfl
  | some content =>
    cases content with
    | commands cs =>
      obtain ⟨init, last, rfl, hinit, hlast, hgive⟩ := exists_give hitem
      have hmap : init.map Command.detached = init :=
        (List.map_congr_left fun c hc => Command.detached_eq (hinit c hc)).trans (List.map_id _)
      have hsame : Command.detached { last with attachment := (d.next? limit i).map Prod.snd } = last :=
        Command.detached_eq hlast
      simp only [Option.map_some, Function.comp_apply, hgive, detached, List.map_append, hmap,
        List.map_cons, hsame, List.map_nil]
    | say _ | narration | verbatim | display => rfl

/-- Only the last command of an item has a table or list: the first one ahead. -/
theorem given_settled? {it : Item} (hit : d.settled? limit i = some it)
    (hcs : it.content = .commands cs) {k : Nat} {c : Command} (hk : cs[k]? = some c) :
    c.attachment = some a ↔ k + 1 = cs.length ∧ ∃ j, Next d it.block j a := by
  obtain ⟨content, hitem, rfl⟩ := Option.map_eq_some_iff.1 hit
  cases content with
  | commands own =>
    obtain ⟨init, last, rfl, hinit, hlast, hgive⟩ := exists_give hitem
    rw [hgive] at hcs
    cases hcs
    have hnext : (d.next? limit i).map Prod.snd = some a ↔ ∃ j, Next d i j a :=
      Document.exists_next?_iff
    rw [← hnext, List.length_append, List.length_singleton, Nat.add_left_inj]
    rcases Nat.lt_or_ge k init.length with hlt | hge
    · rw [List.getElem?_append_left hlt] at hk
      rw [hinit c (List.mem_of_getElem? hk)]
      exact iff_of_false nofun fun h => absurd h.1 (by omega)
    · rw [List.getElem?_append_right hge, List.getElem?_singleton] at hk
      split at hk
      · cases hk
        exact (and_iff_right (by omega)).symm
      · cases hk
  | say _ | narration | verbatim | display => cases hcs

/-- The line at a place and the first table or list ahead of it, by their places. -/
def taken? (limit : Nat) (d : Document) (i : Nat) : Option (Nat × Nat) :=
  match d.item? limit i with
  | some (.commands _) => (d.next? limit i).map fun n => (i, n.1)
  | _ => none

theorem taken?_eq_some_iff {p : Nat × Nat} :
    taken? limit d i = some p ↔ p.1 = i ∧ Takes limit d i p.2 := by
  have hnext : ∀ j, (∃ a, d.next? limit i = some (j, a)) ↔ ∃ a, Next d i j a := fun j =>
    exists_congr fun a => Document.next?_eq_some_iff
  rw [taken?, Takes, ← hnext]
  split
  · rename_i cs hitem
    rw [Option.map_eq_some_iff]
    constructor
    · rintro ⟨n, hn, rfl⟩
      exact ⟨rfl, ⟨cs, hitem⟩, n.2, hn⟩
    · rintro ⟨rfl, -, a, hn⟩
      exact ⟨(p.2, a), hn, rfl⟩
  · rename_i hother
    exact iff_of_false nofun fun h => h.2.1.elim fun cs hcs => hother cs hcs

/-- What an item gets is the table or list at the place that is found for it. -/
theorem attachments_settled? (i : Nat) :
    (d.settled? limit i).toList.flatMap attachments =
      ((taken? limit d i).bind fun p => d.table? p.2).toList := by
  rw [Document.settled?, taken?]
  cases hitem : d.item? limit i with
  | none => rfl
  | some content =>
    cases content with
    | commands cs =>
      obtain ⟨init, last, rfl, hinit, hlast, hgive⟩ := exists_give hitem
      have hnone : init.filterMap (·.attachment) = [] := List.filterMap_eq_nil_iff.2 hinit
      simp only [Option.map_some, hgive, Option.toList_some, List.flatMap_cons, List.flatMap_nil,
        attachments, List.filterMap_append, hnone, List.append_nil, List.nil_append]
      cases hnext : d.next? limit i with
      | none => rfl
      | some n =>
        have htable : d.table? n.1 = some n.2 := (Document.next?_eq_some_iff.1 hnext).ahead.table
        simp [htable]
    | say _ | narration | verbatim | display => rfl

/-- **Tables and lists go where the rule says.** -/
theorem ofDocument_attaches (limit : Nat) (d : Document) :
    Attaches limit d (ofDocument limit d).items := by
  rw [items_ofDocument]
  refine ⟨?_, ?_, (List.range d.blocks.length).filterMap (taken? limit d), ?_, ?_, ?_⟩
  · rw [List.map_filterMap]
    exact congrArg (List.filterMap · _) (funext detached_settled?)
  · intro it hit cs hcs k c hk a
    obtain ⟨i, -, hi⟩ := List.mem_filterMap.1 hit
    exact given_settled? hi hcs hk
  · intro i j
    rw [List.mem_filterMap]
    constructor
    · rintro ⟨k, -, hk⟩
      obtain ⟨rfl, htakes⟩ := taken?_eq_some_iff.1 hk
      exact htakes
    · intro htakes
      obtain ⟨cs, hitem⟩ := htakes.1
      exact ⟨i, List.mem_range.2 (Document.lt_length_of_item? hitem),
        taken?_eq_some_iff.2 ⟨rfl, htakes⟩⟩
  · refine List.Pairwise.filterMap _ ?_ List.pairwise_lt_range
    intro i i' hlt p hp q hq
    obtain ⟨rfl, hp⟩ := taken?_eq_some_iff.1 hp
    obtain ⟨rfl, hq⟩ := taken?_eq_some_iff.1 hq
    exact ⟨hlt, hp.lt hq hlt⟩
  · rw [List.filterMap_filterMap, List.filterMap_eq_flatMap_toList, List.flatMap_assoc,
      List.filterMap_eq_flatMap_toList]
    exact congrArg (List.flatMap · _) (funext attachments_settled?)

/-- Of three lists and tables one is given: past a blank line, to a disabled command. -/
example : (ofDocument 24 ⟨"", [.ofString "[a][# b]", .ofString " ", .ofItems ["x"], .ofRows [["y"]],
    .ofString "prose", .ofItems ["z"]]⟩).items.flatMap attachments = [.list ["x"]] := by
  decide +kernel

end Item
end Manuscript
