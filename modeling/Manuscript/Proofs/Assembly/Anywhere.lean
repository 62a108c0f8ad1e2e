/-
# Declarations may stand anywhere

Declarations are carried out before anything else, and a line that holds nothing but
declarations does nothing when its turn comes. So a program depends on its declarations
in their order, and on the other items in theirs, but not on how the two are mixed
(`Assembly.alike_of_pages`). A line of declarations and the paragraph behind it can change
places, unless a table or list would then go to another command
(`Assembly.ofDocument_declaredAnywhere`).

Key definitions: `ItemContent.declaresOnly`, `ItemContent.declaresNothing`,
`Block.content?`, `Block.carries`, `Page.declared`, `Page.coded`, `Document.pages`.
Key theorems: `Item.content_ofBlock?`, `Item.items_readFrom`, `Assembly.declareAll_eq`,
`Assembly.foldlM_code`, `Assembly.alike_of_pages`,
`Assembly.ofDocument_declaredAnywhere`.
-/
import Manuscript.Proofs.Assembly.Opened
import Manuscript.Proofs.Assembly.Unlocated

namespace Manuscript

/-! ### What a content declares -/

/-- The command declares a character, a sprite or a scene. -/
def Command.declares (c : Command) : Bool := (CommandKind.lookup? c.name).any (·.isDeclaration)

namespace ItemContent

/-- The content is a command line, and of its commands those that are not disabled declare
something. -/
def declaresOnly : ItemContent → Bool
  | .commands cs => (cs.filter (!·.disabled)).all (·.declares)
  | _ => false

/-- No command that is not disabled declares something. -/
def declaresNothing : ItemContent → Bool
  | .commands cs => (cs.filter (!·.disabled)).all (!·.declares)
  | _ => true

theorem declaresOnly_unlocated (x : ItemContent) : x.unlocated.declaresOnly = x.declaresOnly := by
  cases x with
  | commands cs =>
    rw [unlocated, declaresOnly, declaresOnly, List.filter_map, List.all_map]
    rfl
  | _ => rfl

theorem declaresNothing_unlocated (x : ItemContent) :
    x.unlocated.declaresNothing = x.declaresNothing := by
  cases x with
  | commands cs =>
    rw [unlocated, declaresNothing, declaresNothing, List.filter_map, List.all_map]
    rfl
  | _ => rfl

end ItemContent

namespace Block

/-- What a block without a table or list carries, wherever it stands. -/
def content? (limit : Nat) (b : Block) : Option ItemContent := (Item.ofBlock? limit 0 b).1

/-- The block is a paragraph that is read as an item. -/
def carries (limit : Nat) (b : Block) : Bool := b.attachment.isNone && (b.content? limit).isSome

end Block

/-! ### Reading at another place -/

theorem Command.parse?_moved (interior : String) (l l' : Loc) (element : Nat) :
    (parse? interior l element).map (·.1.unlocated) =
      (parse? interior l' element).map (·.1.unlocated) := by
  unfold parse?
  cases takeName? interior.toList with
  | none => rfl
  | some taken =>
    dsimp only [bind, Option.bind]
    split <;> rfl

theorem Segment.command?_moved (line : List Char) (i j : Nat) (s : Segment) :
    (s.command? line i).map (·.1.unlocated) = (s.command? line j).map (·.1.unlocated) := by
  unfold command?
  have h := congrArg (Option.map fun c : Command => { c with disabled := (enabling s.interior).2 })
    (Command.parse?_moved (String.ofList (enabling s.interior).1) (s.loc i) (s.loc j)
      (s.firstElement line))
  simp only [Option.map_map] at h ⊢
  exact h

namespace Bracketed

/-- The commands of a command line at no place in particular. -/
def unlocated? : Bracketed → Option (List Command)
  | .commands cs _ => some (cs.map Command.unlocated)
  | _ => none

theorem unlocated?_ofSegments_cons (line : List Char) (i : Nat) (s : Segment)
    (segments : List Segment) : (ofSegments line i (s :: segments)).unlocated? =
      ((s.command? line i).map (·.1.unlocated)).bind fun c =>
        (ofSegments line i segments).unlocated?.map (c :: ·) := by
  rw [ofSegments]
  cases s.command? line i with
  | none => rfl
  | some p => cases ofSegments line i segments <;> rfl

theorem ofSegments_moved (line : List Char) (i j : Nat) : ∀ segments : List Segment,
    (ofSegments line i segments).unlocated? = (ofSegments line j segments).unlocated?
  | [] => rfl
  | s :: segments => by
    rw [unlocated?_ofSegments_cons, unlocated?_ofSegments_cons, s.command?_moved line i j,
      ofSegments_moved line i j segments]

theorem ofLine_moved (text : String) (i j : Nat) :
    (ofLine text i).unlocated? = (ofLine text j).unlocated? := by
  unfold ofLine
  split
  · rfl
  · exact ofSegments_moved _ i j _

end Bracketed

namespace Item

/-- A line carries its commands, or else what it is as prose. -/
theorem content_read (text : String) (i limit : Nat) :
    (ofLine? (Line.read text i limit).1).map ItemContent.unlocated =
      if Text.allBlank text then none
      else ((Bracketed.ofLine text i).unlocated?.map .commands).or
        ((ofLine? (Line.readProse text limit)).map ItemContent.unlocated) := by
  unfold Line.read
  split
  · rfl
  · cases Bracketed.ofLine text i <;> rfl

/-- **What a block carries does not depend on its place**, but for the places of commands. -/
theorem content_ofBlock? (limit i j : Nat) (b : Block) :
    (ofBlock? limit i b).1.map ItemContent.unlocated =
      (ofBlock? limit j b).1.map ItemContent.unlocated := by
  unfold ofBlock?
  split
  · rfl
  · split
    · rfl
    · split
      · rfl
      · dsimp only
        rw [content_read, content_read, Bracketed.ofLine_moved b.plain i j]

theorem isSome_ofBlock? (limit i : Nat) (b : Block) :
    (ofBlock? limit i b).1.isSome = (b.content? limit).isSome := by
  rw [Block.content?, ← Option.isSome_map, content_ofBlock? limit i 0, Option.isSome_map]

/-! ### Reading block by block -/

variable {limit : Nat}

theorem readFrom_append : ∀ (bs cs : List Block) (i : Nat) (r : Reading),
    readFrom limit i (bs ++ cs) r = readFrom limit (i + bs.length) cs (readFrom limit i bs r)
  | [], _, _, _ => rfl
  | b :: bs, cs, i, r => by
    rw [List.cons_append, readFrom, readFrom_append bs cs, readFrom, List.length_cons,
      Nat.add_right_comm, Nat.add_assoc]

theorem ofBlock_ne_nil (i : Nat) {b : Block} (h : b.carries limit = true) : ofBlock limit i b ≠ [] := by
  have hsome : (ofBlock? limit i b).1.isSome = true := by
    rw [isSome_ofBlock?]
    exact (Bool.and_eq_true_iff.1 h).2
  obtain ⟨content, hcontent⟩ := Option.isSome_iff_exists.1 hsome
  simp [ofBlock, hcontent]

/-- The items that are read are of the blocks that are read. -/
theorem block_of_mem_readFrom {P : Nat → Prop} {bs : List Block} {i : Nat}
    (hP : ∀ j < bs.length, P (i + j)) : ∀ it ∈ (readFrom limit i bs ⟨[], []⟩).items, P it.block := by
  refine forall_readFrom (P := fun it => P it.block) (fun _ _ _ h => h) ?_ (by simp)
  intro j b hb _ content _
  exact hP j (List.getElem?_eq_some_iff.1 hb).1

theorem attach_ne_nil (a : Attachment) {items : List Item} (h : items ≠ []) :
    attach a items ≠ [] := by
  unfold attach
  split <;> simp_all

/-- **Items that are read stay as they are**, unless the next table or list comes before the next
item. -/
theorem items_readFrom {items : List Item} : ∀ {bs : List Block} {i : Nat} {r r' : Reading},
    r.items = items ++ r'.items →
    (r'.items ≠ [] ∨ ∀ b ∈ bs.takeWhile (!·.carries limit), b.attachment = none) →
    (readFrom limit i bs r).items = items ++ (readFrom limit i bs r').items
  | [], _, _, _, hr, _ => hr
  | b :: bs, i, r, r', hr, h => by
    rw [readFrom, readFrom]
    cases hattachment : b.attachment with
    | some a =>
      -- it goes to the last item, which by now is one of those behind
      have hne : r'.items ≠ [] := h.resolve_right fun hbs => by
        have hb := hbs b (by simp [Block.carries, hattachment])
        rw [hattachment] at hb
        cases hb
      have hstep (r : Reading) : r.step limit b i = { r with items := attach a r.items } := by
        rw [Reading.step, hattachment]
      rw [hstep, hstep]
      refine items_readFrom ?_ (.inl (attach_ne_nil a hne))
      rw [hr, attach_append a hne]
    | none =>
      refine items_readFrom ?_ ?_
      · rw [items_step hattachment, items_step hattachment, hr, List.append_assoc]
      · rw [items_step hattachment]
        rcases h with hne | hbs
        · exact .inl (by simp [hne])
        · cases hcarries : b.carries limit with
          | true => exact .inl (by simp [ofBlock_ne_nil i hcarries])
          | false => exact .inr fun c hc => hbs c (by simp [hcarries, hc])

end Item

/-! ### Pages -/

namespace Page

/-- The commands of a page that are not disabled and are known. -/
def orders (p : Page) : List Order :=
  match p.content with
  | .commands cs =>
    (cs.filter (!·.disabled)).filterMap fun c =>
      (CommandKind.lookup? c.name).map (⟨p.source.media, c, ·⟩)
  | _ => []

/-- The declarations of pages, in order. -/
def declared (ps : List Page) : List Order := (ps.flatMap orders).filter (·.kind.isDeclaration)

/-- The pages that hold something other than declarations, in order. -/
def coded (ps : List Page) : List Page := ps.filter (!·.content.declaresOnly)

theorem declared_append (ps qs : List Page) : declared (ps ++ qs) = declared ps ++ declared qs := by
  rw [declared, List.flatMap_append, List.filter_append, declared, declared]

theorem coded_append (ps qs : List Page) : coded (ps ++ qs) = coded ps ++ coded qs :=
  List.filter_append ..

theorem orders_of_declaresNothing {p : Page} (h : p.content.declaresNothing = true) :
    ∀ o ∈ p.orders, o.kind.isDeclaration = false := by
  rcases p with ⟨source, content⟩
  cases content with
  | commands cs =>
    intro o ho
    obtain ⟨c, hc, hmap⟩ := List.mem_filterMap.1 ho
    obtain ⟨kind, hkind, rfl⟩ := Option.map_eq_some_iff.1 hmap
    have hdeclares := List.all_eq_true.1 h c hc
    simpa [Command.declares, hkind] using hdeclares
  | _ => exact fun o ho => nomatch ho

end Page

namespace Item

theorem map_order_enabled (d : Document) (it : Item) :
    it.enabled.map (Enabled.order d) = (it.page d).orders := by
  have hmedia := mediaOf_block d it
  rcases it with ⟨block, content⟩
  unfold page Page.orders enabled
  cases content with
  | commands cs =>
    dsimp only [ItemContent.unlocated]
    rw [List.map_filterMap, List.filter_map, List.filterMap_map]
    refine List.filterMap_congr fun c _ => ?_
    have hname : c.unlocated.name = c.name := rfl
    rw [Function.comp_apply, hname]
    cases CommandKind.lookup? c.name with
    | none => rfl
    | some kind =>
      rw [Option.map_some, Option.map_some, Option.map_some, Enabled.order, hmedia]
  | _ => rfl

/-- The declarations of items, in order. -/
def declarations (items : List Item) : List Enabled :=
  (items.flatMap enabled).filter (·.kind.isDeclaration)

/-- The items that hold something other than declarations, in order. -/
def code (items : List Item) : List Item := items.filter (!·.content.declaresOnly)

theorem map_order_declarations (d : Document) (items : List Item) :
    (declarations items).map (Enabled.order d) = Page.declared (items.map (page d)) := by
  have horders : (items.map (page d)).flatMap Page.orders =
      (items.flatMap enabled).map (Enabled.order d) := by
    rw [List.flatMap_map, List.map_flatMap]
    exact List.flatMap_congr fun it _ => (map_order_enabled d it).symm
  rw [Page.declared, horders, List.filter_map]
  rfl

theorem map_page_code (d : Document) (items : List Item) :
    (code items).map (page d) = Page.coded (items.map (page d)) := by
  rw [code, Page.coded, List.filter_map]
  simp only [Function.comp_def, page, ItemContent.declaresOnly_unlocated]

/-- A command for a function is no declaration, and stands where something other is. -/
theorem anyFunction_eq (d : Document) (items : List Item) :
    (items.flatMap enabled).any (·.kind == .function) =
      (Page.coded (items.map (page d))).any (·.orders.any (·.kind == .function)) := by
  rw [Page.coded, List.any_flatMap, List.any_filter, List.any_map]
  congr 1
  funext it
  rw [Function.comp_apply, page, ItemContent.declaresOnly_unlocated, ← page, ← map_order_enabled,
    List.any_map]
  cases h : it.content.declaresOnly with
  | false => rfl
  | true =>
    refine List.any_eq_false.2 fun e he hfunction => ?_
    obtain ⟨cs, hcs, hmem, hkind⟩ := exists_of_mem_enabled he
    rw [hcs] at h
    have hdeclares := List.all_eq_true.1 h e.command hmem
    rw [Command.declares, hkind, eq_of_beq hfunction] at hdeclares
    cases hdeclares

end Item

namespace Assembly

variable {a b : Assembly} {d e : Document} {s : FrontendSettings}

/-! ### Declarations and code -/

/-- Declaring is what the declarations do. -/
theorem declareAll_eq (d : Document) (items : List Item) (a : Assembly) : declareAll d items a =
    (Item.declarations items).foldl (sceneryStage d)
      ((Item.declarations items).foldl characterStage a) := by
  have hcharacter : (fun a e => if e.kind.isDeclaration then characterStage a e else a) =
      characterStage := by
    funext a e
    unfold characterStage
    cases e.kind <;> rfl
  have hscenery : (fun a e => if e.kind.isDeclaration then sceneryStage d a e else a) =
      sceneryStage d := by
    funext a e
    unfold sceneryStage
    cases e.kind <;> rfl
  rw [Item.declarations, List.foldl_filter, List.foldl_filter, hcharacter, hscenery]
  rfl

theorem command_of_declares {c : Command} (h : c.declares = true) (a : Assembly)
    (media : List Media) : a.command c media = a := by
  obtain ⟨kind, hkind, hdeclares⟩ := (Option.any_eq_true _ _).1 h
  unfold command
  rw [hkind]
  cases kind with
  | character | sprite | scene => exact ite_self a
  | _ => cases hdeclares

/-- A line of declarations does nothing when its turn comes. -/
theorem item_of_declaresOnly {it : Item} (h : it.content.declaresOnly = true) (d : Document)
    (a : Assembly) : item d a it = .ok a := by
  rcases it with ⟨block, content⟩
  cases content with
  | commands cs =>
    have hnoop : ∀ (cs : List Command) (media : List Media), (∀ c ∈ cs, c.declares = true) →
        cs.foldl (fun a c => a.command c media) a = a := by
      intro cs media hcs
      induction cs with
      | nil => rfl
      | cons c cs ih =>
        obtain ⟨hc, hcs⟩ := List.forall_mem_cons.1 hcs
        rw [List.foldl_cons, command_of_declares hc, ih hcs]
    rw [item_of_commands rfl, hnoop _ _ (List.all_eq_true.1 h)]
  | _ => cases h

theorem foldlM_code (d : Document) : ∀ (items : List Item) (a : Assembly),
    items.foldlM (item d) a = (Item.code items).foldlM (item d) a
  | [], _ => rfl
  | it :: items, a => by
    cases h : it.content.declaresOnly with
    | true =>
      have hcode : Item.code (it :: items) = Item.code items := by simp [Item.code, h]
      rw [hcode, List.foldlM_cons, item_of_declaresOnly h]
      exact foldlM_code d items a
    | false =>
      have hcode : Item.code (it :: items) = it :: Item.code items := by simp [Item.code, h]
      rw [hcode, List.foldlM_cons, List.foldlM_cons]
      congr 1
      funext b
      exact foldlM_code d items b

theorem Alike.defaultFunction (h : Alike a b) (htitle : d.title = e.title) {items items' : List Item}
    (hany : (items.flatMap Item.enabled).any (·.kind == .function) =
      (items'.flatMap Item.enabled).any (·.kind == .function)) :
    Alike (Assembly.defaultFunction s d items a) (Assembly.defaultFunction s e items' b) := by
  unfold Assembly.defaultFunction
  rw [hany, htitle]
  split
  · exact h
  · rw [Alike, unlocated_openFunction, unlocated_openFunction, h]

theorem Alike.declareAll (h : Alike a b) {items items' : List Item}
    (horders : Page.declared (items.map (Item.page d)) = Page.declared (items'.map (Item.page e))) :
    Alike (Assembly.declareAll d items a) (Assembly.declareAll e items' b) := by
  rw [← Item.map_order_declarations, ← Item.map_order_declarations] at horders
  have hsame := forall₂_of_map_eq horders
  rw [declareAll_eq, declareAll_eq]
  refine Alike.foldl (R := fun x y => x.order d = y.order e) (fun hxy h => h.sceneryStage hxy) hsame ?_
  exact Alike.foldl (R := fun x y => x.order d = y.order e) (fun hxy h => h.characterStage hxy) hsame h

end Assembly

/-- The pages of a document. -/
def Document.pages (limit : Nat) (d : Document) : List Page :=
  (Item.ofDocument limit d).items.map (Item.page d)

/-- **A program depends on its declarations and its code**, up to places, and not on how the two are
mixed. -/
theorem Assembly.alike_of_pages {a b : Assembly} {d e : Document} {s : FrontendSettings}
    (htitle : d.title = e.title)
    (hdeclared : Page.declared (d.pages s.maxNameChars) = Page.declared (e.pages s.maxNameChars))
    (hcoded : Page.coded (d.pages s.maxNameChars) = Page.coded (e.pages s.maxNameChars))
    (ha : ofDocument s d = .ok a) (hb : ofDocument s e = .ok b) : Alike a b := by
  unfold ofDocument at ha hb
  unfold Document.pages at hdeclared hcoded
  dsimp only at ha hb
  rw [foldlM_code] at ha hb
  generalize (Item.ofDocument s.maxNameChars d).items = items at *
  generalize (Item.ofDocument s.maxNameChars e).items = items' at *
  have hstart : Alike (fresh d.title (Item.ofDocument s.maxNameChars d).diags)
      (fresh e.title (Item.ofDocument s.maxNameChars e).diags) := by
    rw [htitle]
    rfl
  have hany : (items.flatMap Item.enabled).any (·.kind == .function) =
      (items'.flatMap Item.enabled).any (·.kind == .function) := by
    rw [Item.anyFunction_eq d, Item.anyFunction_eq e, hcoded]
  have hopened := hstart.defaultFunction (s := s) htitle hany
  rw [← Item.map_page_code, ← Item.map_page_code] at hcoded
  exact Alike.items (forall₂_of_map_eq hcoded) (hopened.declareAll hdeclared) ha hb

/-! ### Two paragraphs -/

/-- The page of a block, if it carries something. -/
def Block.pages (limit : Nat) (b : Block) : List Page :=
  ((b.content? limit).map fun content => ⟨b, content.unlocated⟩).toList

namespace Item

variable {limit : Nat}

theorem map_page_ofBlock {d : Document} {i : Nat} {b : Block} (h : d.blocks[i]? = some b) :
    (ofBlock limit i b).map (page d) = b.pages limit := by
  have hpage : ((ofBlock? limit i b).1.map (⟨i, ·⟩)).map (page d) =
      ((ofBlock? limit i b).1.map ItemContent.unlocated).map (⟨b, ·⟩) := by
    rw [Option.map_map, Option.map_map]
    refine Option.map_congr fun content _ => ?_
    simp [page, source, h]
  rw [ofBlock, ← Option.toList_map, hpage, content_ofBlock? limit i 0, Option.map_map]
  rfl

/-- Two paragraphs one after the other are two items in a row, if the next table or list comes behind
another item. -/
theorem items_ofDocument_pair (title : String) (pre post : List Block) {y z : Block}
    (hy : y.attachment = none) (hz : z.attachment = none)
    (hpost : ∀ b ∈ post.takeWhile (!·.carries limit), b.attachment = none) :
    (ofDocument limit ⟨title, pre ++ [y, z] ++ post⟩).items =
      (readFrom limit 0 pre ⟨[], []⟩).items ++ ofBlock limit pre.length y ++
        ofBlock limit (pre.length + 1) z ++ (readFrom limit (pre.length + 2) post ⟨[], []⟩).items := by
  have hlength : 0 + (pre ++ [y, z]).length = pre.length + 2 := by simp
  rw [ofDocument_eq, readFrom_append, readFrom_append, hlength, Nat.zero_add]
  refine items_readFrom ?_ (.inr hpost)
  rw [readFrom, readFrom, readFrom, items_step hz, items_step hy, List.append_nil]

theorem source_left {title : String} {pre : List Block} {it : Item} (h : it.block < pre.length)
    (more : List Block) : it.source ⟨title, pre ++ more⟩ = it.source ⟨title, pre⟩ := by
  rw [source, source, List.getElem?_append_left h]

theorem source_right {title : String} {xs ys : List Block} (hlength : xs.length = ys.length)
    {it : Item} (h : xs.length ≤ it.block) (post : List Block) :
    it.source ⟨title, xs ++ post⟩ = it.source ⟨title, ys ++ post⟩ := by
  rw [source, source, List.getElem?_append_right h, List.getElem?_append_right (hlength ▸ h), hlength]

/-- Two paragraphs one after the other are two pages in a row, and the pages around them do not depend
on the two. -/
theorem pages_pair (limit : Nat) (title : String) (pre post : List Block) {y z : Block}
    (hy : y.attachment = none) (hz : z.attachment = none)
    (hpost : ∀ b ∈ post.takeWhile (!·.carries limit), b.attachment = none) :
    Document.pages limit ⟨title, pre ++ [y, z] ++ post⟩ =
      (readFrom limit 0 pre ⟨[], []⟩).items.map (page ⟨title, pre⟩) ++ y.pages limit ++ z.pages limit ++
        (readFrom limit (pre.length + 2) post ⟨[], []⟩).items.map
          (page ⟨title, List.replicate (pre.length + 2) .empty ++ post⟩) := by
  have hpre : ∀ it ∈ (readFrom limit 0 pre ⟨[], []⟩).items,
      page ⟨title, pre ++ [y, z] ++ post⟩ it = page ⟨title, pre⟩ it := by
    intro it hit
    have hblock := block_of_mem_readFrom (P := (· < pre.length)) (fun j hj => by omega) it hit
    rw [page, page, List.append_assoc, source_left hblock]
  have hrest : ∀ it ∈ (readFrom limit (pre.length + 2) post ⟨[], []⟩).items,
      page ⟨title, pre ++ [y, z] ++ post⟩ it =
        page ⟨title, List.replicate (pre.length + 2) .empty ++ post⟩ it := by
    intro it hit
    have hblock := block_of_mem_readFrom (P := (pre.length + 2 ≤ ·)) (fun j _ => by omega) it hit
    have hlength : (pre ++ [y, z]).length = (List.replicate (pre.length + 2) Block.empty).length := by
      simp
    rw [page, page, source_right hlength (by simpa using hblock)]
  rw [Document.pages, items_ofDocument_pair title pre post hy hz hpost, List.map_append,
    List.map_append, List.map_append, List.map_congr_left hpre, List.map_congr_left hrest,
    map_page_ofBlock (by simp), map_page_ofBlock (by simp)]

end Item

namespace Assembly

theorem declared_of_declaresNothing {limit : Nat} {x : Block}
    (h : (x.content? limit).all ItemContent.declaresNothing = true) :
    Page.declared (x.pages limit) = [] := by
  unfold Block.pages
  cases hcontent : x.content? limit with
  | none => rfl
  | some content =>
    rw [hcontent] at h
    have hnothing : (⟨x, content.unlocated⟩ : Page).content.declaresNothing = true :=
      (ItemContent.declaresNothing_unlocated content).trans h
    refine List.filter_eq_nil_iff.2 fun o ho => ?_
    simp [Page.orders_of_declaresNothing hnothing o (by simpa using ho)]

theorem coded_of_declaresOnly {limit : Nat} {d : Block}
    (h : (d.content? limit).any ItemContent.declaresOnly = true) : Page.coded (d.pages limit) = [] := by
  unfold Block.pages
  cases hcontent : d.content? limit with
  | none => rfl
  | some content =>
    rw [hcontent] at h
    have honly : content.declaresOnly = true := h
    simp [Page.coded, ItemContent.declaresOnly_unlocated, honly]

theorem Alike.program {a b : Assembly} (h : Alike a b) : a.program = b.program :=
  h.field Assembly.program

/-- **Declarations may stand anywhere.** If a line of declarations and the paragraph behind it, which
declares nothing, change places, and the next table or list comes behind another item, then the same
program is put together, and the same functions up to places. -/
theorem ofDocument_declaredAnywhere (s : FrontendSettings) (title : String) (pre post : List Block)
    {d x : Block} (hd : d.attachment = none)
    (honly : (d.content? s.maxNameChars).any ItemContent.declaresOnly = true)
    (hx : x.attachment = none)
    (hnothing : (x.content? s.maxNameChars).all ItemContent.declaresNothing = true)
    (hpost : ∀ b ∈ post.takeWhile (!·.carries s.maxNameChars), b.attachment = none) :
    ∃ a b, ofDocument s ⟨title, pre ++ [d, x] ++ post⟩ = .ok a ∧
      ofDocument s ⟨title, pre ++ [x, d] ++ post⟩ = .ok b ∧
      a.program = b.program ∧
      a.procedures.map Procedure.unlocated = b.procedures.map Procedure.unlocated := by
  obtain ⟨a, ha, -⟩ := yields_ofDocument s ⟨title, pre ++ [d, x] ++ post⟩
  obtain ⟨b, hb, -⟩ := yields_ofDocument s ⟨title, pre ++ [x, d] ++ post⟩
  have hpages := Item.pages_pair s.maxNameChars title pre post hd hx hpost
  have hpages' := Item.pages_pair s.maxNameChars title pre post hx hd hpost
  have halike : Alike a b := by
    refine alike_of_pages ?_ ?_ ?_ ha hb
    · rfl
    · simp only [hpages, hpages', Page.declared_append, declared_of_declaresNothing hnothing,
        List.append_nil]
    · simp only [hpages, hpages', Page.coded_append, coded_of_declaresOnly honly, List.append_nil]
  exact ⟨a, b, ha, hb, halike.program, halike.procedures⟩

/-- A line that declares a character under two names, and a scene. -/
def declaringLine : Block := .ofString "[Character Alice, alias=Al][Scene Hall]"

/-- A line that the character speaks under the second name. -/
def spokenLine : Block := .ofString "Al: hello"

/-- A branch and the list of its arms. -/
def branchBlocks : List Block := [.ofString "[Branch]", .ofItems ["Again: Start"]]

/-- The character may speak before the declaration, and the list behind the two goes to its branch. -/
theorem ofDocument_declaredAnywhere_alice :
    (declaringLine.content? 24).any ItemContent.declaresOnly = true ∧
    (spokenLine.content? 24).all ItemContent.declaresNothing = true ∧
    (∀ b ∈ branchBlocks.takeWhile (!·.carries 24), b.attachment = none) ∧
    ∃ a b,
      ofDocument {} ⟨"T", [.ofString "[Function Start]"] ++ [declaringLine, spokenLine] ++ branchBlocks⟩ =
        .ok a ∧
      ofDocument {} ⟨"T", [.ofString "[Function Start]"] ++ [spokenLine, declaringLine] ++ branchBlocks⟩ =
        .ok b ∧
      a.program = b.program ∧
      a.procedures.map Procedure.unlocated = b.procedures.map Procedure.unlocated := by
  have honly : (declaringLine.content? 24).any ItemContent.declaresOnly = true := by decide +kernel
  have hnothing : (spokenLine.content? 24).all ItemContent.declaresNothing = true := by decide +kernel
  have hpost : ∀ b ∈ branchBlocks.takeWhile (!·.carries 24), b.attachment = none := by decide +kernel
  exact ⟨honly, hnothing, hpost,
    ofDocument_declaredAnywhere {} "T" [.ofString "[Function Start]"] branchBlocks rfl honly rfl
      hnothing hpost⟩

end Assembly
end Manuscript
