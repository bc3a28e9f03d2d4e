import Mathlib.Data.List.InsertIdx
import Mathlib.Data.List.Perm.Basic
import ScriptTyping.Proofs.Store.Links
import ScriptTyping.Store.Edits

set_option autoImplicit false

namespace ScriptTyping.Store

open Relation

theorem fits_iff {index : Int} :
    fits index = true ↔ -0x8000000000000000 ≤ index ∧ index < 0x8000000000000000 :=
  decide_eq_true_iff

namespace Edit

-- The nodes that the edit puts in; one that fails puts in none.
def incoming (store : Store) : Edit → List NodeId
  | insert _ _ child => [child]
  | append _ child => [child]
  | remove _ _ => []
  | replace parent old new => if old ∈ store.children parent then [new] else []
  | replaceChildren _ children => children

def outgoing (store : Store) : Edit → List NodeId
  | replace _ old _ => [old]
  | replaceChildren parent _ => store.children parent
  | _ => []

def nodes : Edit → List NodeId
  | insert parent _ child => [parent, child]
  | append parent child => [parent, child]
  | remove parent child => [parent, child]
  | replace parent old new => [parent, old, new]
  | replaceChildren parent children => parent :: children

-- The edit is about nodes of the store. Those that it puts in are distinct, they are free once it
-- has taken out its children, and none is the receiver or above it.
structure Admissible (edit : Edit) (store : Store) : Prop where
  within : ∀ id ∈ edit.nodes, id < store.cells.size
  distinct : (edit.incoming store).Nodup
  free : ∀ id ∈ edit.incoming store, store.parent id = none ∨ id ∈ edit.outgoing store
  outside : ∀ id ∈ edit.incoming store, ¬ ReflTransGen store.Under edit.receiver id

def Fits : Edit → Prop
  | insert _ index _ => -0x8000000000000000 ≤ index ∧ index < 0x8000000000000000
  | _ => True

def listed (children : List NodeId) : Edit → List NodeId
  | insert _ index child => children.insertIdx (place children.length index) child
  | append _ child => children ++ [child]
  | remove _ child => children.erase child
  | replace _ old new => children.set (children.idxOf old) new
  | replaceChildren _ given => given

-- Only a child can be removed or replaced, and an index that does not fit is refused.
def fault? (store : Store) : Edit → Option StoreFault
  | remove parent child =>
      if child ∈ store.children parent then none
      else some (.notChild (store.label child).kind (store.label parent).kind)
  | replace parent old _ =>
      if old ∈ store.children parent then none
      else some (.notChild (store.label old).kind (store.label parent).kind)
  | insert _ index _ => if fits index then none else some .hugeIndex
  | _ => none

end Edit

variable {store : Store} {parent child old new : NodeId}

theorem relinked_adopt (linked : store.WellLinked) (within : parent < store.cells.size)
    (inside : child < store.cells.size) (children : List NodeId)
    (among : ∀ id, id ∈ children ↔ id = child ∨ id ∈ store.children parent) :
    Relinked store parent children
      ((setParent (some parent) store child).setChildren parent children) where
  size := by simp
  label id := by simp
  own := by simp [children_setChildren, within]
  others id other := by simp [children_setChildren, within, Ne.symm other]
  parent id := by
    rw [parent_setChildren, parent_setParent _ inside]
    by_cases same : child = id
    · rw [if_pos same, if_pos ((among id).mpr (.inl same.symm))]
    · rw [if_neg same]
      by_cases member : id ∈ store.children parent
      · rw [if_pos ((among id).mpr (.inr member)), (linked.linked id parent).mpr member]
      · rw [if_neg fun present => ((among id).mp present).elim (fun equal => same equal.symm) member,
          if_neg member]

theorem relinked_insertAt (linked : store.WellLinked) (within : parent < store.cells.size)
    (inside : child < store.cells.size) {position : Nat}
    (short : position ≤ (store.children parent).length) :
    Relinked store parent ((store.children parent).insertIdx position child)
      (store.insertAt parent position child) := by
  have adopt := relinked_adopt linked within inside _ fun id => List.mem_insertIdx short
  simpa [insertAt] using adopt

theorem insert_of_fits {index : Int} (within : fits index = true) :
    store.insert parent index child =
      .ok () (store.insertAt parent (place (store.children parent).length index) child) := by
  rw [Store.insert, if_pos within]

theorem relinked_append (linked : store.WellLinked) (within : parent < store.cells.size)
    (inside : child < store.cells.size) :
    Relinked store parent (store.children parent ++ [child]) (append parent store child) := by
  have adopt := relinked_adopt linked within inside (store.children parent ++ [child])
    fun id => by simp [or_comm]
  simpa [append] using adopt

theorem indexOf_of_mem (member : child ∈ store.children parent) :
    store.indexOf parent child = .ok ((store.children parent).idxOf child) := by
  have found : (store.children parent).findIdx? (· == child) =
      some ((store.children parent).idxOf child) :=
    List.findIdx?_eq_some_iff_findIdx_eq.mpr ⟨List.idxOf_lt_length_of_mem member, rfl⟩
  rw [indexOf, found]

theorem indexOf_of_not_mem (absent : child ∉ store.children parent) :
    store.indexOf parent child =
      .error (.notChild (store.label child).kind (store.label parent).kind) := by
  have missing : (store.children parent).findIdx? (· == child) = none :=
    List.findIdx?_eq_none_iff.mpr fun id member => beq_false_of_ne fun same => absent (same ▸ member)
  rw [indexOf, missing]

def without (store : Store) (parent child : NodeId) : Store :=
  setParent none (store.setChildren parent ((store.children parent).erase child)) child

theorem remove_of_mem (member : child ∈ store.children parent) :
    store.remove parent child =
      .ok ((store.children parent).idxOf child) (store.without parent child) := by
  rw [remove, indexOf_of_mem member, without, ← List.eraseIdx_idxOf_eq_erase]

theorem remove_of_not_mem (absent : child ∉ store.children parent) :
    store.remove parent child =
      .error (.notChild (store.label child).kind (store.label parent).kind) store := by
  rw [remove, indexOf_of_not_mem absent]

theorem relinked_without (linked : store.WellLinked) (member : child ∈ store.children parent) :
    Relinked store parent ((store.children parent).erase child) (store.without parent child) := by
  have under := (linked.linked child parent).mpr member
  have inside := lt_of_parent under
  have within := lt_of_mem_children member
  refine ⟨by simp [without], by simp [without], ?_, fun id other => ?_, fun id => ?_⟩
  · simp [without, children_setChildren, within]
  · simp [without, children_setChildren, within, Ne.symm other]
  · rw [without, parent_setParent none (by simpa using inside), parent_setChildren]
    simp only [(linked.nodup_children parent).mem_erase_iff]
    by_cases same : child = id
    · subst same
      simp [member]
    · by_cases kept : id ∈ store.children parent
      · simp [same, Ne.symm same, kept, (linked.linked id parent).mpr kept]
      · simp [same, kept]

theorem wellLinked_without (linked : store.WellLinked) (member : child ∈ store.children parent) :
    (store.without parent child).WellLinked :=
  linked.relinked (relinked_without linked member) ((linked.nodup_children parent).erase child)
    (fun _ kept => .inr (List.mem_of_mem_erase kept))
    fun _ kept => linked.not_above_of_mem (List.mem_of_mem_erase kept)

theorem place_of_le {length index : Nat} (le : index ≤ length) : place length index = index := by
  have plain : ¬ ((index : Int) < 0) := by omega
  rw [place, if_neg plain, Int.toNat_natCast, Nat.min_eq_left le]

theorem replace_eq_insert (member : old ∈ store.children parent)
    (short : (store.children parent).length ≤ 0x8000000000000000) :
    store.replace parent old new =
      (store.without parent old).insert parent ((store.children parent).idxOf old) new := by
  have less := List.idxOf_lt_length_of_mem member
  have shorter := List.length_erase_of_mem member
  have rest : (store.without parent old).children parent = (store.children parent).erase old := by
    simp [without, children_setChildren, lt_of_mem_children member]
  have taken : fits ((store.children parent).idxOf old) = true := fits_iff.mpr (by omega)
  rw [replace, remove_of_mem member, insert_of_fits taken, rest, place_of_le (by omega)]

theorem relinked_replace (linked : store.WellLinked) (inside : new < store.cells.size)
    (within : parent < store.cells.size) (member : old ∈ store.children parent) :
    ∃ after, store.replace parent old new = .ok () after ∧
      Relinked store parent ((store.children parent).set ((store.children parent).idxOf old) new)
        after := by
  have less := List.idxOf_lt_length_of_mem member
  have shorter := List.length_erase_of_mem member
  have first := relinked_without linked member
  refine ⟨(store.without parent old).insertAt parent ((store.children parent).idxOf old) new, ?_, ?_⟩
  · rw [replace, remove_of_mem member]
  · have short : (store.children parent).idxOf old ≤
        ((store.without parent old).children parent).length := by
      rw [first.own]
      omega
    have second := relinked_insertAt (wellLinked_without linked member) (by rwa [first.size])
      (show new < (store.without parent old).cells.size by rwa [first.size]) short
    rw [first.own, ← List.eraseIdx_idxOf_eq_erase,
      List.insertIdx_eraseIdx_self (Nat.ne_of_lt less)] at second
    exact first.trans second fun _ kept => List.mem_of_mem_erase kept

theorem foldl_setParent (store : Store) (ids : List NodeId)
    (within : ∀ id ∈ ids, id < store.cells.size) (parent : Option NodeId) :
    (ids.foldl (setParent parent) store).cells.size = store.cells.size ∧
    (∀ id, (ids.foldl (setParent parent) store).label id = store.label id) ∧
    (∀ id, (ids.foldl (setParent parent) store).children id = store.children id) ∧
    ∀ id, (ids.foldl (setParent parent) store).parent id =
      if id ∈ ids then parent else store.parent id := by
  induction ids generalizing store with
  | nil => simp
  | cons first rest ih =>
      obtain ⟨size, label, children, parents⟩ :=
        ih (setParent parent store first) (by simp_all)
      refine ⟨size.trans (by simp), fun id => (label id).trans (by simp),
        fun id => (children id).trans (by simp), fun id => (parents id).trans ?_⟩
      rw [parent_setParent _ (within first (by simp))]
      by_cases later : id ∈ rest
      · simp [later]
      · simp [later, eq_comm]

theorem foldl_append (store : Store) (parent : NodeId) (ids : List NodeId)
    (inside : ∀ id ∈ ids, id < store.cells.size) (within : parent < store.cells.size) :
    (ids.foldl (append parent) store).cells.size = store.cells.size ∧
    (∀ id, (ids.foldl (append parent) store).label id = store.label id) ∧
    (∀ id, (ids.foldl (append parent) store).children id =
      if id = parent then store.children parent ++ ids else store.children id) ∧
    ∀ id, (ids.foldl (append parent) store).parent id =
      if id ∈ ids then some parent else store.parent id := by
  induction ids generalizing store with
  | nil =>
      refine ⟨rfl, fun _ => rfl, fun id => ?_, by simp⟩
      by_cases same : id = parent <;> simp [same]
  | cons first rest ih =>
      have size : (append parent store first).cells.size = store.cells.size := by simp [append]
      obtain ⟨sizes, label, children, parents⟩ :=
        ih (append parent store first) (by simp_all) (by rwa [size])
      refine ⟨sizes.trans size, fun id => (label id).trans (by simp [append]),
        fun id => (children id).trans ?_, fun id => (parents id).trans ?_⟩
      · by_cases same : id = parent
        · simp [same, append, children_setChildren, within]
        · simp [same, append, children_setChildren, within, Ne.symm same]
      · rw [append, parent_setChildren, parent_setParent _ (inside first (by simp))]
        by_cases later : id ∈ rest
        · simp [later]
        · simp [later, eq_comm]

theorem relinked_replaceChildren (linked : store.WellLinked) (within : parent < store.cells.size)
    {ids : List NodeId} (inside : ∀ id ∈ ids, id < store.cells.size) :
    Relinked store parent ids (store.replaceChildren parent ids) := by
  obtain ⟨size, label, children, parents⟩ := foldl_setParent store (store.children parent)
    (fun id member => lt_of_parent ((linked.linked id parent).mpr member)) none
  obtain ⟨sizes, labels, lists, owners⟩ := foldl_append
    (((store.children parent).foldl (setParent none) store).setChildren parent []) parent ids
    (by simpa [size] using inside) (by simpa [size] using within)
  refine ⟨sizes.trans (by simp [size]), fun id => (labels id).trans (by simp [label]),
    (lists parent).trans ?_, fun id other => (lists id).trans ?_, fun id => (owners id).trans ?_⟩
  · simp [children_setChildren, size, within]
  · simp [children_setChildren, size, within, other, Ne.symm other, children]
  · rw [parent_setChildren, parents]

namespace Edit

variable {edit : Edit}

theorem listed_of_absent {children : List NodeId} (absent : old ∉ children) :
    children.set (children.idxOf old) new = children :=
  List.set_eq_of_length_le (Nat.le_of_eq (List.idxOf_eq_length absent).symm)

theorem relinked_perform (linked : store.WellLinked) (admissible : edit.Admissible store)
    (fits : edit.Fits) :
    (edit.perform store).2 = edit.fault? store ∧
      Relinked store edit.receiver (edit.listed (store.children edit.receiver))
        (edit.perform store).1 := by
  have within := admissible.within
  cases edit with
  | insert parent index child =>
      have taken := fits_iff.mpr fits
      rw [perform, insert_of_fits taken, fault?, if_pos taken]
      exact ⟨rfl, relinked_insertAt linked (within parent (by simp [nodes]))
        (within child (by simp [nodes])) (place_le _ index)⟩
  | append parent child =>
      exact ⟨rfl, relinked_append linked (within parent (by simp [nodes]))
        (within child (by simp [nodes]))⟩
  | remove parent child =>
      by_cases member : child ∈ store.children parent
      · rw [perform, remove_of_mem member, fault?, if_pos member]
        exact ⟨rfl, relinked_without linked member⟩
      · rw [perform, remove_of_not_mem member, fault?, if_neg member]
        refine ⟨rfl, ?_⟩
        rw [listed, receiver, List.erase_of_not_mem member]
        exact .refl linked parent
  | replace parent old new =>
      by_cases member : old ∈ store.children parent
      · obtain ⟨after, same, relinked⟩ := relinked_replace linked
          (within new (by simp [nodes])) (within parent (by simp [nodes])) member
        rw [perform, same, fault?, if_pos member]
        exact ⟨rfl, relinked⟩
      · rw [perform, Store.replace, remove_of_not_mem member, fault?, if_neg member]
        refine ⟨rfl, ?_⟩
        rw [listed, receiver, listed_of_absent member]
        exact .refl linked parent
  | replaceChildren parent children =>
      exact ⟨rfl, relinked_replaceChildren linked (within parent (by simp [nodes]))
        fun id member => within id (List.mem_cons_of_mem parent member)⟩

theorem mem_incoming (admissible : edit.Admissible store) {id : NodeId}
    (member : id ∈ edit.incoming store) :
    store.parent id = none ∨ id ∈ store.children edit.receiver := by
  refine (admissible.free id member).imp_right fun taken => ?_
  cases edit with
  | replace parent old new =>
      obtain rfl := List.mem_singleton.mp taken
      by_contra absent
      simp [incoming, show id ∉ store.children parent from absent] at member
  | replaceChildren parent children => exact taken
  | _ => cases taken

theorem nodup_listed (linked : store.WellLinked) (admissible : edit.Admissible store) :
    (edit.listed (store.children edit.receiver)).Nodup := by
  have distinct := linked.nodup_children edit.receiver
  have free {id : NodeId} (loose : store.parent id = none) : id ∉ store.children edit.receiver :=
    fun member => by simp [(linked.linked id _).mpr member] at loose
  cases edit with
  | insert parent index child =>
      have absent := free ((admissible.free child (by simp [incoming])).resolve_right (by simp [outgoing]))
      exact (List.perm_insertIdx child _ (place_le _ index)).nodup_iff.mpr
        (List.nodup_cons.mpr ⟨absent, distinct⟩)
  | append parent child =>
      have absent := free ((admissible.free child (by simp [incoming])).resolve_right (by simp [outgoing]))
      exact (List.perm_append_singleton child _).nodup_iff.mpr (List.nodup_cons.mpr ⟨absent, distinct⟩)
  | remove parent child => exact distinct.erase child
  | replace parent old new =>
      rw [listed, receiver]
      by_cases member : old ∈ store.children parent
      · refine (List.set_perm_cons_eraseIdx (List.idxOf_lt_length_of_mem member) new).nodup_iff.mpr ?_
        rw [List.eraseIdx_idxOf_eq_erase, List.nodup_cons]
        refine ⟨fun kept => ?_, distinct.erase old⟩
        obtain ⟨other, present⟩ := distinct.mem_erase_iff.mp kept
        rcases admissible.free new (by simp [incoming, member]) with loose | taken
        · exact free loose present
        · exact other (List.mem_singleton.mp taken)
      · rw [listed_of_absent member]
        exact distinct
  | replaceChildren parent children => exact admissible.distinct

theorem mem_listed {id : NodeId} (member : id ∈ edit.listed (store.children edit.receiver)) :
    id ∈ edit.incoming store ∨ id ∈ store.children edit.receiver := by
  cases edit with
  | insert parent index child =>
      rcases (List.mem_insertIdx (place_le _ index)).mp member with rfl | kept
      · exact .inl (by simp [incoming])
      · exact .inr kept
  | append parent child =>
      rcases List.mem_append.mp member with kept | new
      · exact .inr kept
      · exact .inl new
  | remove parent child => exact .inr (List.mem_of_mem_erase member)
  | replace parent old new =>
      by_cases present : old ∈ store.children parent
      · rcases List.mem_or_eq_of_mem_set member with kept | rfl
        · exact .inr kept
        · exact .inl (by simp [incoming, present])
      · rw [listed, receiver, listed_of_absent present] at member
        exact .inr member
  | replaceChildren parent children => exact .inl member

theorem wellLinked_perform (linked : store.WellLinked) (admissible : edit.Admissible store)
    (fits : edit.Fits) : (edit.perform store).1.WellLinked := by
  refine linked.relinked (relinked_perform linked admissible fits).2 (nodup_listed linked admissible)
    ?_ ?_
  · intro id member
    rcases mem_listed member with new | kept
    · exact mem_incoming admissible new
    · exact .inr kept
  · intro id member
    rcases mem_listed member with new | kept
    · exact admissible.outside id new
    · exact linked.not_above_of_mem kept

theorem perform_of_fault (fits : edit.Fits) (failed : edit.fault? store ≠ none) :
    (edit.perform store).1 = store := by
  cases edit with
  | insert parent index child => simp [fault?, fits_iff.mpr fits] at failed
  | append parent child => simp [fault?] at failed
  | remove parent child =>
      have absent : child ∉ store.children parent := fun member => by simp [fault?, member] at failed
      rw [perform, remove_of_not_mem absent, outcome]
  | replace parent old new =>
      have absent : old ∉ store.children parent := fun member => by simp [fault?, member] at failed
      rw [perform, Store.replace, remove_of_not_mem absent, outcome]
  | replaceChildren parent children => simp [fault?] at failed

def AllAdmissible (store : Store) : List Edit → Prop
  | [] => True
  | edit :: rest => edit.Admissible store ∧ edit.Fits ∧ AllAdmissible (edit.perform store).1 rest

-- The edit leaves a well-linked store in which one node has another list of children, or it fails
-- and leaves everything as it was.
structure Keeps (edit : Edit) (store : Store) : Prop where
  linked : (edit.perform store).1.WellLinked
  own : (edit.perform store).1.children edit.receiver = edit.listed (store.children edit.receiver)
  others : ∀ id, id ≠ edit.receiver → (edit.perform store).1.children id = store.children id
  label : ∀ id, (edit.perform store).1.label id = store.label id
  fault : (edit.perform store).2 = edit.fault? store
  failed : edit.fault? store ≠ none → (edit.perform store).1 = store

theorem keeps (linked : store.WellLinked) (admissible : edit.Admissible store) (fits : edit.Fits) :
    edit.Keeps store := by
  obtain ⟨fault, relinked⟩ := relinked_perform linked admissible fits
  exact ⟨wellLinked_perform linked admissible fits, relinked.own, relinked.others, relinked.label,
    fault, perform_of_fault fits⟩

/-- Any run of admissible edits keeps a store well-linked, and each of them edits one list of children or
fails and changes nothing. -/
theorem performAll_linked {edits : List Edit} (linked : store.WellLinked)
    (admissible : AllAdmissible store edits) :
    (performAll store edits).WellLinked ∧
      ∀ before edit after, edits = before ++ edit :: after →
        edit.Keeps (performAll store before) := by
  induction edits generalizing store with
  | nil => exact ⟨linked, fun before edit after split => by simp at split⟩
  | cons first rest ih =>
      obtain ⟨here, fits, later⟩ := admissible
      obtain ⟨final, each⟩ := ih (wellLinked_perform linked here fits) later
      refine ⟨final, fun before edit after split => ?_⟩
      cases before with
      | nil =>
          obtain ⟨rfl, -⟩ := List.cons.inj split
          exact keeps linked here fits
      | cons next before =>
          obtain ⟨rfl, rest⟩ := List.cons.inj split
          exact each before edit after rest

def freshCells (labels : List Label) : Store := ⟨(labels.map fun label => ⟨label, [], none⟩).toArray⟩

theorem cell_freshCells (labels : List Label) (id : NodeId) :
    (freshCells labels).children id = [] ∧ (freshCells labels).parent id = none := by
  simp only [Store.children, Store.parent, cell, freshCells, Array.getD_eq_getD_getElem?,
    List.getElem?_toArray, List.getElem?_map]
  cases labels[id]? with
  | none => exact ⟨rfl, rfl⟩
  | some label => exact ⟨rfl, rfl⟩

theorem wellLinked_freshCells (labels : List Label) : (freshCells labels).WellLinked := by
  have none (id parent : NodeId) : ¬ (freshCells labels).Under id parent := by
    rw [Under, (cell_freshCells labels id).2]
    simp
  refine .of_each (fun id => ?_) (fun id parent => ?_) fun id cycle => ?_
  · rw [(cell_freshCells labels id).1]
    exact List.nodup_nil
  · rw [(cell_freshCells labels parent).1]
    exact ⟨fun under => absurd under (none id parent), fun member => by cases member⟩
  · obtain ⟨_, under, _⟩ := TransGen.head'_iff.mp cycle
    exact none id _ under

theorem admissible_of_root {edit : Edit} (root : store.parent edit.receiver = none)
    (within : ∀ id ∈ edit.nodes, id < store.cells.size) (distinct : (edit.incoming store).Nodup)
    (free : ∀ id ∈ edit.incoming store,
      (store.parent id = none ∨ id ∈ edit.outgoing store) ∧ id ≠ edit.receiver) :
    edit.Admissible store where
  within := within
  distinct := distinct
  free id member := (free id member).1
  outside id member above := by
    rcases ReflTransGen.cases_head above with same | ⟨parent, under, _⟩
    · exact (free id member).2 same.symm
    · rw [Under, root] at under
      cases under

def arrayCells : Store :=
  freshCells (["array", "number", "identifier", "string"].map fun kind =>
    { kind, slot := none, token := none, lead := "", trail := "" })

def arrayEdits : List Edit :=
  [.insert 0 7 1, .insert 0 (-5) 2, .append 0 3, .replace 0 1 1, .remove 0 1, .remove 0 1,
   .replace 0 2 1, .replaceChildren 0 [3, 2, 1]]

theorem arrayEdits_linked :
    arrayCells.WellLinked ∧ AllAdmissible arrayCells arrayEdits ∧
      (performAll arrayCells arrayEdits).WellLinked ∧
      (performAll arrayCells arrayEdits).children 0 = [3, 2, 1] ∧
      Edit.Keeps (.remove 0 1) (performAll arrayCells (arrayEdits.take 5)) ∧
      (Edit.perform (performAll arrayCells (arrayEdits.take 5)) (.remove 0 1)).2 =
        some (.notChild "number" "array") := by
  have linked : arrayCells.WellLinked := wellLinked_freshCells _
  have admissible : AllAdmissible arrayCells arrayEdits := by
    refine ⟨?_, by simp [Fits], ?_, by simp [Fits], ?_, trivial, ?_, trivial, ?_, trivial, ?_, trivial,
      ?_, trivial, ?_, trivial, trivial⟩ <;>
      exact admissible_of_root (by decide +kernel) (by decide +kernel) (by decide +kernel)
        (by decide +kernel)
  obtain ⟨final, each⟩ := performAll_linked linked admissible
  exact ⟨linked, admissible, final, by decide +kernel, each (arrayEdits.take 5) _ _ rfl,
    by decide +kernel⟩

-- An index beyond those that a list takes is refused when the child has its new parent already.
theorem hugeInsert_unlinked :
    arrayCells.WellLinked ∧ Edit.Admissible (.insert 0 0x8000000000000000 1) arrayCells ∧
      (Edit.perform arrayCells (.insert 0 0x8000000000000000 1)).2 = some .hugeIndex ∧
      (Edit.perform arrayCells (.insert 0 0x8000000000000000 1)).1.children 0 = [] ∧
      (Edit.perform arrayCells (.insert 0 0x8000000000000000 1)).1.parent 1 = some 0 ∧
      ¬ (Edit.perform arrayCells (.insert 0 0x8000000000000000 1)).1.WellLinked := by
  have alone : (Edit.perform arrayCells (.insert 0 0x8000000000000000 1)).1.children 0 = [] := by
    decide +kernel
  have adopted : (Edit.perform arrayCells (.insert 0 0x8000000000000000 1)).1.parent 1 = some 0 := by
    decide +kernel
  refine ⟨wellLinked_freshCells _, ?_, by decide +kernel, alone, adopted, fun linked => ?_⟩
  · exact admissible_of_root (by decide +kernel) (by decide +kernel) (by decide +kernel)
      (by decide +kernel)
  · have member := (linked.linked 1 0).mp adopted
    rw [alone] at member
    exact List.not_mem_nil member

end Edit

end ScriptTyping.Store
