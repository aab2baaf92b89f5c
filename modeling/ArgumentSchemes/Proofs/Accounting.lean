import ArgumentSchemes.Proofs.Segments
import ArgumentSchemes.Run.Collection

/-!
# What becomes of the items of a run

Headers are added to a collection one after the other, also behind a fatal fault
(`Collection.additions`). An item has one of four outcomes: a scheme with entries is kept
(`kept?`), one without entries is left out, a fault that is not fatal is recorded (`rejection?`),
and a fatal one ends its header and takes the rejections so far with it. Since only the last item of
a header can be fatal (`exists_items_of_parse`), it cuts nothing off.

Main statement: whichever headers have a fatal fault, every scheme and every rejection is accounted
for, once and in order (`additions_account`).
-/

namespace ArgumentSchemes

namespace Header

/-- Only the last item of a header is fatal, and it is the fault of a scheme that is left open. -/
theorem Checker.exists_items_of_parse (checker : Checker) (text : String) :
    ∃ items : List Item, (∀ fault, .error fault ∈ items → fault.isFatal = false) ∧
      (checker.parse text = items ∨
        ∃ name line, checker.parse text = items ++ [.error (.unterminated name line)]) := by
  have hclosed : ∀ segs : List Segment, (∀ seg ∈ segs, ∃ r, seg = .closed r) →
      ∀ fault, .error fault ∈ segs.map (·.item checker) → fault.isFatal = false := by
    intro segs hsegs fault hmem
    obtain ⟨seg, hseg, hitem⟩ := List.mem_map.mp hmem
    obtain ⟨r, rfl⟩ := hsegs seg hseg
    exact Segment.isFatal_of_item_closed_eq_error hitem
  have hinit : ∀ seg ∈ (segments 1 (kinds text)).dropLast, ∃ r, seg = .closed r :=
    fun seg => exists_closed_of_mem_dropLast
  rw [checker.parse_eq_map_segments]
  rcases List.eq_nil_or_concat' (segments 1 (kinds text)) with hnil | ⟨init, last, hlast⟩
  · exact ⟨[], by simp, .inl (by rw [hnil]; rfl)⟩
  · rw [hlast] at hinit ⊢
    rw [List.dropLast_concat] at hinit
    cases last with
    | closed r =>
      refine ⟨(init ++ [Segment.closed r]).map fun seg => seg.item checker,
        hclosed _ fun seg hseg => ?_, .inl rfl⟩
      rcases List.mem_append.mp hseg with hseg | hseg
      · exact hinit seg hseg
      · exact ⟨r, List.mem_singleton.mp hseg⟩
    | unclosed r =>
      refine ⟨init.map (·.item checker), hclosed init hinit, .inr ⟨r.name, r.number, ?_⟩⟩
      rw [List.map_append]
      rfl

end Header

namespace Run

open Header (Checker Item)

/-! ### The outcomes of items -/

/-- The scheme that an item of the header `path` adds to a collection, if it adds one. -/
def kept? (path : Files.Path) : Item → Option (Files.Path × Scheme)
  | .ok scheme => if scheme.entries.isEmpty then none else some (path, scheme)
  | .error _ => none

/-- The rejection for an item of the header `path`, if it is rejected. -/
def rejection? (path : Files.Path) : Item → Option Rejection
  | .ok _ => none
  | .error fault => if fault.isFatal then none else some ⟨path, fault⟩

/-- A scheme is kept when it has entries, with the path of its header. -/
theorem kept?_eq_some_iff {path : Files.Path} {item : Item} {kept : Files.Path × Scheme} :
    kept? path item = some kept ↔
      item = .ok kept.2 ∧ kept.1 = path ∧ kept.2.entries ≠ [] := by
  rcases kept with ⟨header, scheme⟩
  rcases item with fault | s
  · simp [kept?]
  · rw [kept?, Option.ite_none_left_eq_some, Option.some.injEq, Prod.mk.injEq,
      List.isEmpty_iff, Except.ok.injEq]
    constructor
    · rintro ⟨hempty, rfl, rfl⟩
      exact ⟨rfl, rfl, hempty⟩
    · rintro ⟨rfl, rfl, hempty⟩
      exact ⟨hempty, rfl, rfl⟩

/-- The rejections that a fatal fault took with it. -/
def Addition.carried (a : Addition) : List Rejection :=
  match a.fatal with
  | some fault => fault.rejections
  | none => []

namespace Collection

/-- A collection with the outcomes of items of the header `path` behind what it has. -/
def withItems (c : Collection) (path : Files.Path) (items : List Item) : Collection :=
  { c with
    schemes := c.schemes ++ items.filterMap (kept? path)
    rejections := c.rejections ++ items.filterMap (rejection? path) }

theorem withItems_cons (c : Collection) (path : Files.Path) (item : Item) (items : List Item) :
    c.withItems path (item :: items) = (c.withItems path [item]).withItems path items := by
  simp only [withItems, List.append_assoc, ← List.filterMap_append, List.singleton_append]

/-- An item that is not fatal leaves its outcome in the collection. -/
theorem addItem_of_isFatal_eq_false (c : Collection) (path : Files.Path) {item : Item}
    (h : ∀ fault, item = .error fault → fault.isFatal = false) :
    (c.addItem path item).fatal = none ∧
      (c.addItem path item).collection = c.withItems path [item] := by
  rcases item with fault | scheme
  · have hfault := h fault rfl
    simp [addItem, withItems, List.filterMap_cons, kept?, rejection?, hfault]
  · cases hempty : scheme.entries.isEmpty with
    | true => simp [addItem, withItems, List.filterMap_cons, kept?, rejection?, hempty]
    | false => simp [addItem, withItems, List.filterMap_cons, kept?, rejection?, hempty]

/-- Items that are not fatal leave their outcomes, and the items behind them are added to these. -/
theorem addItems_append (c : Collection) (path : Files.Path) {items : List Item}
    (h : ∀ fault, .error fault ∈ items → fault.isFatal = false) (rest : List Item) :
    (c.addItems path (items ++ rest)).fatal = ((c.withItems path items).addItems path rest).fatal ∧
      (c.addItems path (items ++ rest)).collection =
        ((c.withItems path items).addItems path rest).collection := by
  induction items generalizing c with
  | nil => simp [withItems]
  | cons item items ih =>
    have hitem : ∀ fault, item = .error fault → fault.isFatal = false :=
      fun fault hitem => h fault (hitem ▸ List.mem_cons_self)
    obtain ⟨hfatal, hcollection⟩ := c.addItem_of_isFatal_eq_false path hitem
    have hrest := ih (c.withItems path [item]) fun fault hmem =>
      h fault (List.mem_cons_of_mem _ hmem)
    rw [List.cons_append, addItems, hfatal, hcollection, c.withItems_cons path item items]
    exact hrest

/-! ### Headers -/

section Headers

variable (c : Collection) {checker : Checker} (path : Files.Path) {text : String}
  {items : List Item}

/-- A header without a fatal fault leaves the outcomes of all of its items. -/
theorem add_of_parse_eq (h : ∀ fault, .error fault ∈ items → fault.isFatal = false)
    (hparse : checker.parse text = items) :
    (c.add checker path text).fatal = none ∧
      (c.add checker path text).collection =
        { c with filesScanned := c.filesScanned + 1 }.withItems path items := by
  have hadded := addItems_append { c with filesScanned := c.filesScanned + 1 } path h []
  rw [List.append_nil] at hadded
  rw [add, hparse]
  exact hadded

/-- A header that leaves a scheme open takes all rejections with it, those of its own items too. -/
theorem add_of_parse_eq_concat (h : ∀ fault, .error fault ∈ items → fault.isFatal = false)
    {name : String} {line : Nat}
    (hparse : checker.parse text = items ++ [.error (.unterminated name line)]) :
    (c.add checker path text).fatal = some ⟨path, .unterminated name line,
        c.rejections ++ items.filterMap (rejection? path)⟩ ∧
      (c.add checker path text).collection =
        { c with
          schemes := c.schemes ++ items.filterMap (kept? path)
          rejections := []
          filesScanned := c.filesScanned + 1 } := by
  rw [add, hparse]
  exact addItems_append { c with filesScanned := c.filesScanned + 1 } path h
    [.error (.unterminated name line)]

end Headers

/-- A header adds all of its items, whether its end is fatal or not. -/
theorem add_accounts (c : Collection) (checker : Checker) (path : Files.Path) (text : String) :
    (∀ path' fault, (∃ rejections,
        (c.add checker path text).fatal = some ⟨path', fault, rejections⟩) ↔
      path' = path ∧ (∃ name line, fault = .unterminated name line) ∧
        (checker.parse text).getLast? = some (.error fault)) ∧
    (c.add checker path text).collection.schemes =
      c.schemes ++ (checker.parse text).filterMap (kept? path) ∧
    (c.add checker path text).carried ++ (c.add checker path text).collection.rejections =
      c.rejections ++ (checker.parse text).filterMap (rejection? path) ∧
    (c.add checker path text).collection.filesScanned = c.filesScanned + 1 := by
  obtain ⟨items, hitems, hparse | ⟨name, line, hparse⟩⟩ := checker.exists_items_of_parse text
  · obtain ⟨hnone, hcollection⟩ := c.add_of_parse_eq path hitems hparse
    rw [Addition.carried, hnone, hcollection, hparse]
    refine ⟨fun path' fault => ⟨?_, ?_⟩, rfl, rfl, rfl⟩
    · rintro ⟨_, hsome⟩
      cases hsome
    · rintro ⟨-, ⟨_, _, rfl⟩, hlast⟩
      cases hitems _ (List.mem_of_getLast? hlast)
  · obtain ⟨hsome, hcollection⟩ := c.add_of_parse_eq_concat path hitems hparse
    rw [Addition.carried, hsome, hcollection, hparse, List.getLast?_concat]
    refine ⟨fun path' fault => ⟨?_, ?_⟩, ?_, ?_, rfl⟩
    · rintro ⟨_, hfault⟩
      obtain ⟨rfl, rfl, -⟩ := FatalFault.mk.inj (Option.some.inj hfault)
      exact ⟨rfl, ⟨name, line, rfl⟩, rfl⟩
    · rintro ⟨rfl, -, hfault⟩
      obtain rfl := Except.error.inj (Option.some.inj hfault)
      exact ⟨_, rfl⟩
    · simp [kept?]
    · simp [rejection?, SchemeFault.isFatal]

/-- What comes of adding headers one after the other, each to what the one before has left, whether
it had a fatal fault or not. -/
def additions (c : Collection) (checker : Checker) : List (Files.Path × String) → List Addition
  | [] => []
  | (path, text) :: rest =>
    c.add checker path text :: (c.add checker path text).collection.additions checker rest

/-- The collection after all headers. -/
def addAll (c : Collection) (checker : Checker) : List (Files.Path × String) → Collection
  | [] => c
  | (path, text) :: rest => (c.add checker path text).collection.addAll checker rest

/-- **No result of a run is lost or duplicated**, whichever headers have a fatal fault. Adding a
header gives a fatal fault exactly when the header leaves a scheme open. At the end the collection
has the schemes with entries of all headers; the rejections that fatal faults took with them and
those that remain are all rejections of all headers; and every header is counted. -/
theorem additions_account (c : Collection) (checker : Checker)
    (headers : List (Files.Path × String)) :
    List.Forall₂
      (fun header (a : Addition) => ∀ path fault,
        (∃ rejections, a.fatal = some ⟨path, fault, rejections⟩) ↔
          path = header.1 ∧ (∃ name line, fault = .unterminated name line) ∧
            (checker.parse header.2).getLast? = some (.error fault))
      headers (c.additions checker headers) ∧
    (c.addAll checker headers).schemes = c.schemes ++
      headers.flatMap (fun header => (checker.parse header.2).filterMap (kept? header.1)) ∧
    (c.additions checker headers).flatMap Addition.carried ++
        (c.addAll checker headers).rejections = c.rejections ++
      headers.flatMap (fun header => (checker.parse header.2).filterMap (rejection? header.1)) ∧
    (c.addAll checker headers).filesScanned = c.filesScanned + headers.length := by
  induction headers generalizing c with
  | nil => simp [additions, addAll]
  | cons header rest ih =>
    obtain ⟨path, text⟩ := header
    obtain ⟨hfatal, hschemes, hrejections, hscanned⟩ := c.add_accounts checker path text
    obtain ⟨hfatals, hschemes', hrejections', hscanned'⟩ := ih (c.add checker path text).collection
    refine ⟨.cons hfatal hfatals, ?_, ?_, ?_⟩
    · rw [addAll, hschemes', hschemes, List.flatMap_cons, List.append_assoc]
    · rw [additions, addAll, List.flatMap_cons, List.flatMap_cons, List.append_assoc, hrejections',
        ← List.append_assoc, hrejections, List.append_assoc]
    · rw [addAll, hscanned', hscanned, List.length_cons]
      omega

end Collection

end Run

end ArgumentSchemes
