import HeapLens.Proofs.Collection.View

set_option autoImplicit false

namespace HeapLens

variable {session : Session} {place : Nat} {s : Snapshot} {h : Heap} {x : Handle} {view : MapView}
  {text : String} {k v : QueryValue} {kc vc : Cell} {item : Except Fault (Cell × Cell)}
  {e : QueryError}

namespace MapView

def key (view : MapView) (item : Except Fault (Cell × Cell)) : Except QueryError QueryValue := do
  QueryValue.ofCell view.owner (← Task.readEntry.on view.owner.node item).1

def withKey {α : Type} (view : MapView) (item : Except Fault (Cell × Cell))
    (f : QueryValue → Cell → Except QueryError α) : Except QueryError α := do
  let (keyCell, valueCell) ← Task.readEntry.on view.owner.node item
  f (← QueryValue.ofCell view.owner keyCell) valueCell

/-- Whether the key of an entry is shown by the text. -/
def Matches (view : MapView) (session : Session) (text : String)
    (item : Except Fault (Cell × Cell)) : Prop :=
  ∃ k, view.key item = .ok k ∧ k.displayText session = .ok (some text)

def Passes (view : MapView) (session : Session) (text : String)
    (item : Except Fault (Cell × Cell)) : Prop :=
  ∃ k, view.key item = .ok k ∧ k.displayText session ≠ .ok (some text)

theorem key_eq_ok_iff : view.key item = .ok k ↔
    ∃ kc vc, item = .ok (kc, vc) ∧ QueryValue.ofCell view.owner kc = .ok k := by
  rcases item with fault | ⟨kc, vc⟩ <;> simp [key]

section withKey

variable {α : Type} {f : QueryValue → Cell → Except QueryError α}

theorem withKey_of_ofCell (key_eq : QueryValue.ofCell view.owner kc = .ok k) :
    view.withKey (.ok (kc, vc)) f = f k vc := by
  simp [withKey, key_eq]

theorem withKey_of_error (fails : view.key item = .error e) :
    view.withKey item f = .error e := by
  rcases item with fault | ⟨kc, vc⟩
  · exact congrArg Except.error (Except.error.inj fails)
  · have key_eq : QueryValue.ofCell view.owner kc = .error e := fails
    simp [withKey, key_eq]

end withKey

theorem pair_eq (view : MapView) (item : Except Fault (Cell × Cell)) :
    view.pair item =
      view.withKey item fun k vc => (QueryValue.ofCell view.owner vc).map (Prod.mk k) := by
  rcases item with fault | ⟨kc, vc⟩
  · rfl
  · cases QueryValue.ofCell view.owner vc <;> rfl

def answerTo (session : Session) (owner : Handle) (text : String) (k : QueryValue) (c : Cell) :
    Except QueryError (Option QueryValue) := do
  if (← k.displayText session) = some text then (QueryValue.ofCell owner c).map some else .ok none

theorem matchEntry_eq (view : MapView) (item : Except Fault (Cell × Cell)) :
    Catalog.matchEntry session view text item =
      view.withKey item (answerTo session view.owner text) := rfl

theorem matchEntry_of_matches (found : view.Matches session text (.ok (kc, vc))) :
    Catalog.matchEntry session view text (.ok (kc, vc)) =
      (QueryValue.ofCell view.owner vc).map some := by
  obtain ⟨k, key_eq, shown⟩ := found
  rw [matchEntry_eq, withKey_of_ofCell key_eq]
  simp [answerTo, shown]

theorem not_matches_null (vc : Cell) : ¬view.Matches session text (.ok (.null, vc)) := by
  rintro ⟨k, eq, shown⟩
  obtain rfl : QueryValue.null = k := Except.ok.inj eq
  cases shown

end MapView

def Catalog.searchEnd (session : Session) (view : MapView) (text : String)
    (item : Except Fault (Cell × Cell)) : Option (Except QueryError QueryValue) :=
  match matchEntry session view text item with
  | .error e => some (.error e)
  | .ok (some v) => some (.ok v)
  | .ok none => none

namespace Catalog

variable {c : Catalog} {cells : Store.Entries}

theorem searchEnd_eq_none_iff :
    searchEnd session view text item = none ↔ matchEntry session view text item = .ok none := by
  unfold searchEnd
  split <;> simp_all

theorem searchEnd_eq_error_iff : searchEnd session view text item = some (.error e) ↔
    matchEntry session view text item = .error e := by
  unfold searchEnd
  split <;> simp_all

theorem searchEnd_of_matches (found : view.Matches session text (.ok (kc, vc))) :
    searchEnd session view text (.ok (kc, vc)) = some (QueryValue.ofCell view.owner vc) := by
  rw [searchEnd, MapView.matchEntry_of_matches found]
  cases QueryValue.ofCell view.owner vc <;> rfl

theorem not_matches_of_searchEnd (goes_on : searchEnd session view text item = none) :
    ¬view.Matches session text item := by
  intro found
  obtain ⟨k, eq, -⟩ := id found
  obtain ⟨kc, vc, rfl, -⟩ := MapView.key_eq_ok_iff.mp eq
  simp [searchEnd_of_matches found] at goes_on

theorem valueAt_eq (found : c.map? session x = .ok (some view)) (read : view.cells = .ok cells) :
    c.valueAt session x text =
      (cells.toList.findSome? (searchEnd session view text)).getD (.ok .null) := by
  simp only [valueAt, found, read, ok_bind, Walk.firstAnswer_eq]
  rfl

end Catalog

namespace Session.Opens

theorem matchEntry_of_passes (opens : session.Opens place h)
    (within : view.owner.Within place h) (good : h.GoodEntry item)
    (passes : view.Passes session text item) :
    Catalog.matchEntry session view text item = .ok none := by
  obtain ⟨k, eq, other⟩ := passes
  obtain ⟨kc, vc, rfl, key_eq⟩ := MapView.key_eq_ok_iff.mp eq
  have value := QueryValue.ofCell_outcome within good.1
  rw [key_eq] at value
  obtain ⟨shown, shown_eq, -⟩ := (opens.displayText_succeeds value).exists_eq
  have differs : shown ≠ some text := fun same => other (same ▸ shown_eq)
  rw [MapView.matchEntry_eq, MapView.withKey_of_ofCell key_eq]
  simp [MapView.answerTo, shown_eq, differs]

/-- Where a search fails, the item of the map fails too, and for the same reason. -/
theorem pair_of_matchEntry_error (opens : session.Opens place h)
    (within : view.owner.Within place h) (good : h.GoodEntry item)
    (fails : Catalog.matchEntry session view text item = .error e) : view.pair item = .error e := by
  cases eq : view.key item with
  | error e' =>
    rw [MapView.matchEntry_eq, MapView.withKey_of_error eq] at fails
    obtain rfl := Except.error.inj fails
    rw [MapView.pair_eq, MapView.withKey_of_error eq]
  | ok k =>
    by_cases shown : k.displayText session = .ok (some text)
    · obtain ⟨kc, vc, rfl, key_eq⟩ := MapView.key_eq_ok_iff.mp eq
      rw [MapView.matchEntry_of_matches ⟨k, eq, shown⟩] at fails
      rw [MapView.pair_eq, MapView.withKey_of_ofCell key_eq]
      cases value_eq : QueryValue.ofCell view.owner vc <;> simp_all [Except.map]
    · simp [opens.matchEntry_of_passes within good ⟨k, eq, shown⟩] at fails

theorem findSome?_of_passes (opens : session.Opens place h) (within : view.owner.Within place h)
    {entries : List (Except Fault (Cell × Cell))} (good : ∀ item ∈ entries, h.GoodEntry item)
    (pass : ∀ item ∈ entries, view.Passes session text item) :
    entries.findSome? (Catalog.searchEnd session view text) = none := by
  refine List.findSome?_eq_none_iff.mpr fun item mem => Catalog.searchEnd_eq_none_iff.mpr ?_
  exact opens.matchEntry_of_passes within (good item mem) (pass item mem)

theorem findSome?_append_of_passes (opens : session.Opens place h)
    (within : view.owner.Within place h) {before after : List (Except Fault (Cell × Cell))}
    (good : ∀ d ∈ before ++ item :: after, h.GoodEntry d)
    (pass : ∀ d ∈ before, view.Passes session text d) :
    (before ++ item :: after).findSome? (Catalog.searchEnd session view text) =
      (Catalog.searchEnd session view text item).or
        (after.findSome? (Catalog.searchEnd session view text)) := by
  have goes_on := opens.findSome?_of_passes within
    (fun d mem => good d (List.mem_append_left _ mem)) pass
  rw [List.findSome?_append, goes_on, Option.none_or, List.findSome?_cons]
  cases Catalog.searchEnd session view text item <;> rfl

end Session.Opens

/-- Whether an item of a map has a key that is not shown by the text. -/
def MapView.Skips (session : Session) (text : String)
    (item : Except QueryError (QueryValue × QueryValue)) : Prop :=
  ∃ k v, item = .ok (k, v) ∧ k.displayText session ≠ .ok (some text)

namespace MapView

theorem pair_eq_ok_iff : view.pair item = .ok (k, v) ↔
    ∃ kc vc, item = .ok (kc, vc) ∧ QueryValue.ofCell view.owner kc = .ok k ∧
      QueryValue.ofCell view.owner vc = .ok v := by
  constructor
  · intro eq
    rw [pair_eq] at eq
    cases key_eq : view.key item with
    | error e => simp [withKey_of_error key_eq] at eq
    | ok k' =>
      obtain ⟨kc, vc, rfl, cell_eq⟩ := key_eq_ok_iff.mp key_eq
      rw [withKey_of_ofCell cell_eq] at eq
      cases value_eq : QueryValue.ofCell view.owner vc <;> simp_all [Except.map]
  · rintro ⟨kc, vc, rfl, key_eq, value_eq⟩
    rw [pair_eq, withKey_of_ofCell key_eq, value_eq]
    rfl

theorem Skips.passes (skips : Skips session text (view.pair item)) :
    view.Passes session text item := by
  obtain ⟨k, v, eq, other⟩ := skips
  obtain ⟨kc, vc, rfl, key_eq, -⟩ := pair_eq_ok_iff.mp eq
  exact ⟨k, key_eq, other⟩

end MapView

/-- What a search answers on the entries of a map, by the entry at which it ends. -/
structure MapView.Searched (view : MapView) (session : Session) (text : String)
    (entries : List (Except Fault (Cell × Cell))) (answer : Except QueryError QueryValue) :
    Prop where
  nothing : (∀ item ∈ entries, view.Passes session text item) → answer = .ok .null
  found : ∀ before kc vc after, entries = before ++ .ok (kc, vc) :: after →
    (∀ item ∈ before, view.Passes session text item) →
    view.Matches session text (.ok (kc, vc)) → answer = QueryValue.ofCell view.owner vc
  stopped : ∀ before item after e, entries = before ++ item :: after →
    (∀ item ∈ before, view.Passes session text item) → view.key item = .error e → answer = .error e
  fails : ∀ e, answer = .error e → ∃ before item after, entries = before ++ item :: after ∧
    view.pair item = .error e ∧ ∀ d ∈ before, ¬view.Matches session text d

theorem Session.Opens.searched (opens : session.Opens place h)
    (within : view.owner.Within place h) {entries : List (Except Fault (Cell × Cell))}
    (good : ∀ item ∈ entries, h.GoodEntry item) :
    view.Searched session text entries
      ((entries.findSome? (Catalog.searchEnd session view text)).getD (.ok .null)) where
  nothing pass := by rw [opens.findSome?_of_passes within good pass]; rfl
  found before kc vc after split pass reads := by
    subst split
    rw [opens.findSome?_append_of_passes within good pass, Catalog.searchEnd_of_matches reads]
    rfl
  stopped before item after e split pass fails := by
    subst split
    have ends : Catalog.searchEnd session view text item = some (.error e) := by
      rw [Catalog.searchEnd_eq_error_iff, MapView.matchEntry_eq, MapView.withKey_of_error fails]
    rw [opens.findSome?_append_of_passes within good pass, ends]
    rfl
  fails e eq := by
    cases ends : entries.findSome? (Catalog.searchEnd session view text) with
    | none => simp [ends] at eq
    | some answer =>
      obtain rfl : answer = .error e := by simpa [ends] using eq
      obtain ⟨before, item, after, rfl, here, earlier⟩ := List.findSome?_eq_some_iff.mp ends
      refine ⟨before, item, after, rfl, ?_, fun d mem => ?_⟩
      · exact opens.pair_of_matchEntry_error within (good item (by simp))
          (Catalog.searchEnd_eq_error_iff.mp here)
      · exact Catalog.not_matches_of_searchEnd (earlier d mem)

namespace MapView.Searched

variable {entries : List (Except Fault (Cell × Cell))} {answer : Except QueryError QueryValue}

theorem found_among_items (searched : view.Searched session text entries answer)
    {before after : List (Except QueryError (QueryValue × QueryValue))}
    (split : entries.map view.pair = before ++ .ok (k, v) :: after)
    (skip : ∀ item ∈ before, Skips session text item)
    (shown : k.displayText session = .ok (some text)) : answer = .ok v := by
  obtain ⟨early, later, rfl, rfl, eq⟩ := List.map_eq_append_iff.mp split
  obtain ⟨item, rest, rfl, here, rfl⟩ := List.map_eq_cons_iff.mp eq
  obtain ⟨kc, vc, rfl, key_eq, value_eq⟩ := pair_eq_ok_iff.mp here
  rw [← value_eq]
  refine searched.found early kc vc rest rfl (fun item mem => ?_) ⟨k, key_eq, shown⟩
  exact (skip _ (List.mem_map_of_mem mem)).passes

theorem nothing_among_items (searched : view.Searched session text entries answer)
    (skip : ∀ item ∈ entries.map view.pair, Skips session text item) : answer = .ok .null :=
  searched.nothing fun _ mem => (skip _ (List.mem_map_of_mem mem)).passes

end MapView.Searched

/--
A search for a key yields the value of the first item of the map whose key is shown by the text, and
nothing if no item has such a key. It fails only where an item fails, at the first such key or
before. Entries after that key do not matter, nor do the values under other keys; nothing is no such
key.
-/
theorem valueAt_searches_items (accepted : Heap.ofSnapshot s = .ok h)
    (opened : session.storeAt place = .ok h.store) (within : x.Within place h) (text : String) :
    (Catalog.builtin.map? session x = .ok none ∧
        Catalog.builtin.valueAt session x text = .ok .null) ∨
      ∃ view cells items, Catalog.builtin.map? session x = .ok (some view) ∧ view.owner = x ∧
        view.cells = .ok cells ∧ view.items = .ok items ∧
        items.toList = cells.toList.map view.pair ∧
        (∀ before k v after, items.toList = before ++ .ok (k, v) :: after →
          (∀ item ∈ before, MapView.Skips session text item) →
          k.displayText session = .ok (some text) →
          Catalog.builtin.valueAt session x text = .ok v) ∧
        ((∀ item ∈ items.toList, MapView.Skips session text item) →
          Catalog.builtin.valueAt session x text = .ok .null) ∧
        view.Searched session text cells.toList (Catalog.builtin.valueAt session x text) ∧
        ∀ vc, ¬view.Matches session text (.ok (.null, vc)) := by
  have opens : session.Opens place h := ⟨Heap.sound_of_ofSnapshot accepted, opened⟩
  obtain ⟨o, map_eq, views⟩ := (opens.map?_succeeds Catalog.reliable_builtin within).exists_eq
  cases o with
  | none =>
    refine .inl ⟨map_eq, ?_⟩
    rw [Catalog.valueAt, map_eq]
    rfl
  | some view =>
    obtain ⟨rfl, store_eq, reliable, form⟩ := views view rfl
    obtain ⟨cells, read, good⟩ := (reliable.entries form h opens.sound _ within.has).exists_eq
    have cells_eq : view.cells = .ok cells := by
      rw [MapView.cells, store_eq, read]
      rfl
    have searched : view.Searched session text cells.toList
        (Catalog.builtin.valueAt session view.owner text) := by
      rw [Catalog.valueAt_eq map_eq cells_eq]
      exact opens.searched within good
    refine .inr ⟨view, cells, cells.map view.pair, map_eq, rfl, cells_eq, ?_,
      Walk.toList_map _ _, ?_, ?_, searched, MapView.not_matches_null⟩
    · rw [MapView.items, cells_eq]
      rfl
    · intro before k v after split
      rw [Walk.toList_map] at split
      exact searched.found_among_items split
    · intro skip
      rw [Walk.toList_map] at skip
      exact searched.nothing_among_items skip

def satchel : Snapshot where
  nodes :=
    [⟨.classNode "java.util.HashMap" none none [], none, none⟩,
      ⟨.classNode "Satchel" (some ⟨0⟩) none [], none, none⟩,
      ⟨.plain ⟨1⟩ [⟨"table", .ref ⟨3⟩, none⟩], none, none⟩,
      ⟨.array ⟨0⟩ [.ref ⟨4⟩], none, none⟩,
      ⟨.plain ⟨0⟩ [⟨"key", .text "map", none⟩, ⟨"value", .wide 0, none⟩, ⟨"next", .ref ⟨5⟩, none⟩],
        none, none⟩,
      ⟨.plain ⟨0⟩ [⟨"value", .int 7, none⟩, ⟨"next", .ref ⟨6⟩, none⟩], none, none⟩,
      ⟨.plain ⟨0⟩ [⟨"key", .text "pen", none⟩, ⟨"value", .int 5, none⟩, ⟨"next", .ref ⟨6⟩, none⟩],
        none, none⟩]
  roots := [⟨2⟩]

def satchelHeap : Heap := Heap.assemble (Heap.recordsOfSnapshot satchel) satchel.roots

def satchelSession : Session := Session.empty.opening satchelHeap.store

theorem ofSnapshot_satchel : Heap.ofSnapshot satchel = .ok satchelHeap :=
  Heap.ofSnapshot_of_defect? (by decide +kernel)

theorem cells_satchel :
    (Catalog.builtin.map? satchelSession ⟨0, ⟨2⟩⟩).toOption.join.map
        (fun view => view.cells.map Walk.toList) =
      some (.ok [.ok (.text "map", .wide 0), .ok (.null, .int 7), .ok (.text "pen", .int 5),
        .error (.corrupt .cyclicBuckets)]) := by
  decide +kernel

theorem valueAt_satchel :
    Heap.ofSnapshot satchel = .ok satchelHeap ∧
      satchelSession.storeAt 0 = .ok satchelHeap.store ∧
      Handle.Within ⟨0, ⟨2⟩⟩ 0 satchelHeap ∧
      (∃ view items rest, Catalog.builtin.map? satchelSession ⟨0, ⟨2⟩⟩ = .ok (some view) ∧
        view.items = .ok items ∧
        items.toList = .error (.unsupportedType (Cell.wide 0).typeName) :: rest) ∧
      Catalog.builtin.valueAt satchelSession ⟨0, ⟨2⟩⟩ "pen" = .ok (.integer 5) := by
  have within : Handle.Within ⟨0, ⟨2⟩⟩ 0 satchelHeap :=
    ⟨rfl, (Heap.has_iff_of_ofSnapshot ofSnapshot_satchel).mpr (by decide)⟩
  refine ⟨ofSnapshot_satchel, rfl, within, ?_⟩
  have known := cells_satchel
  rcases valueAt_searches_items ofSnapshot_satchel (rfl : satchelSession.storeAt 0 = _) within "pen"
    with ⟨none_found, -⟩ |
      ⟨view, cells, items, found, -, read, told, items_eq, -, -, searched, -⟩
  · rw [none_found] at known
    cases known
  · have cells_eq : cells.toList = [.ok (.text "map", .wide 0), .ok (.null, .int 7),
        .ok (.text "pen", .int 5), .error (.corrupt .cyclicBuckets)] := by
      rw [found] at known
      simpa [Except.toOption, read, Except.map] using known
    rw [cells_eq] at items_eq searched
    refine ⟨⟨view, items, _, found, told, items_eq⟩, ?_⟩
    refine searched.found [_, _] _ _ [_] rfl ?_ ⟨.text "pen", rfl, rfl⟩
    simp only [List.forall_mem_cons, List.not_mem_nil, false_implies, implies_true, and_true]
    exact ⟨⟨.text "map", rfl, by decide⟩, .null, rfl, by decide⟩

end HeapLens
