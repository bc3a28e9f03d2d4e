import ScriptTyping.Proofs.Node.Slots
import ScriptTyping.Proofs.Store.InPlace
import ScriptTyping.Store.Statements

set_option autoImplicit false

namespace ScriptTyping.Store

open Relation

section Runs

variable {ε σ α β : Type} {state after : σ} {value : α}

theorem run_bind {first : EStateM ε σ α} {next : α → EStateM ε σ β}
    (ran : first state = .ok value after) : (first >>= next) state = next value after := by
  simp only [bind, EStateM.bind, ran]

theorem run_error {fault : ε} {first : EStateM ε σ α} {next : α → EStateM ε σ β}
    (ran : first state = .error fault after) : (first >>= next) state = .error fault after := by
  simp only [bind, EStateM.bind, ran]

theorem run_get (next : σ → EStateM ε σ β) : (get >>= next) state = next state state := rfl

theorem run_update {next : Unit → Editing β} {store : Store} (change : Store → Store) :
    (Editing.update change >>= next) store = next () (change store) := rfl

theorem make_eq (store : Store) (draft : Draft) :
    Editing.make draft store = .ok (store.graft draft).2 (store.graft draft).1 := rfl

end Runs

variable {store after : Store} {id child inner : NodeId} {left right : List NodeId}

theorem idxOf_of_split (linked : store.WellLinked)
    (split : store.children id = left ++ child :: right) :
    (store.children id).idxOf child = left.length := by
  have new : child ∉ left := fun member => (linked.sibling_of_split split (.inl member)).2 rfl
  rw [split, List.idxOf_append_of_notMem new, List.idxOf_cons_self, Nat.add_zero]

theorem run_remove {β : Type} {next : Nat → Editing β} (linked : store.WellLinked)
    (split : store.children id = left ++ child :: right) :
    (Editing.remove id child >>= next) store = next left.length (store.without id child) := by
  refine run_bind (show store.remove id child = _ from ?_)
  rw [remove_of_mem (mem_of_split split), idxOf_of_split linked split]

theorem run_indexOf {β : Type} {next : Nat → Editing β} (linked : store.WellLinked)
    (split : store.children id = left ++ child :: right) :
    (Editing.indexOf id child >>= next) store = next left.length store := by
  refine run_bind ?_
  rw [Editing.indexOf, Store.indexOf_of_mem (mem_of_split split), idxOf_of_split linked split]

theorem getElem?_behind {α : Type} {items left right : List α} {item : α}
    (split : items = left ++ item :: right) : items[left.length + 1]? = right.head? := by
  rw [split, List.getElem?_append_right (Nat.le_add_right _ _), Nat.add_sub_cancel_left,
    List.getElem?_cons_succ, List.head?_eq_getElem?]

-- A node without a parent gets a slot and a lead, and a tree is made around it.
theorem wrapped (linked : store.WellLinked) (within : inner < store.cells.size)
    (free : store.parent inner = none) (slot : Option String) (lead : String) {draft : Draft}
    (made : draft.IsMade) (around : draft.givens = [inner]) :
    let set := (store.setSlot inner slot).setTrivia inner lead
    set.toNode inner = ((store.toNode inner).withSlot slot).withTrivia lead ∧
      Confined store [inner] (set.graft draft).1 ∧
        Fresh store (set.graft draft).1 (set.graft draft).2 (draft.read set) := by
  obtain ⟨slotted, readSlot⟩ := inPlace_setSlot linked within slot
  obtain ⟨led, readLead⟩ := inPlace_setTrivia slotted.linked (within.trans_le slotted.size) lead
  have set := slotted.again linked led
  have alone : Free ((store.setSlot inner slot).setTrivia inner lead) draft.givens :=
    around ▸ free_singleton.mpr ⟨within.trans_le set.size, set.parent.trans free⟩
  obtain ⟨confined, fresh⟩ := fresh_graft set.linked made alone
  rw [around] at confined
  refine ⟨by rw [readLead, readSlot], set.toConfined.trans linked confined fun other member _ =>
    ⟨other, member, .refl⟩, ?_⟩
  exact { fresh with new := set.size.trans fresh.new }

theorem read_bindingDraft (store : Store) (pattern : NodeId) (name : String) {tree : Node}
    (read : store.toNode pattern = (tree.withSlot (some "name")).withTrivia " ") :
    (bindingDraft pattern name).read store = Bindings.statement tree name := by
  rw [Bindings.statement, ← read]
  rfl

theorem bindPattern_makes (linked : store.WellLinked) {pattern : NodeId}
    (within : pattern < store.cells.size) (free : store.parent pattern = none) (name : String) :
    ∃ statement after, bindPattern pattern name store = .ok statement after ∧
      Confined store [pattern] after ∧
      Fresh store after statement (Bindings.statement (store.toNode pattern) name) := by
  have made : (bindingDraft pattern name).IsMade := trivial
  obtain ⟨read, confined, fresh⟩ := wrapped linked within free (some "name") " " made rfl
  rw [read_bindingDraft _ pattern name read] at fresh
  refine ⟨_, _, ?_, confined, fresh⟩
  rw [bindPattern, run_update, make_eq]

section Slots

variable {slot : String}

theorem split_of_child? (acyclic : store.Acyclic) (first : store.child? id (some slot) = some child) :
    ∃ left right, store.children id = left ++ child :: right ∧
      (∀ tree ∈ left.map store.toNode, Children.inSlot slot tree = false) ∧
      Children.inSlot slot (store.toNode child) = true := by
  obtain ⟨here, left, right, split, before⟩ := List.find?_eq_some_iff_append.mp first
  have inSlot (id : NodeId) :
      Children.inSlot slot (store.toNode id) = ((store.label id).slot == some slot) := by
    rw [Children.inSlot, Tree.slot, label_toNode acyclic]
  refine ⟨left, right, split, ?_, (inSlot child).trans here⟩
  intro tree member
  obtain ⟨other, beside, rfl⟩ := List.mem_map.mp member
  simpa [inSlot] using before other beside

theorem child?_toNode (acyclic : store.Acyclic) (id : NodeId) (slot : String) :
    (store.toNode id).child? slot = (store.child? id (some slot)).map store.toNode := by
  rw [Tree.child?, children_toNode acyclic, List.find?_map, child?]
  congr 2
  funext other
  exact congrArg (fun label => label.slot == some slot) (label_toNode acyclic other)

theorem toNode_in_slot {given : List NodeId} (linked : store.WellLinked)
    (first : store.child? id (some slot) = some child) (inPlace : InPlace store child given after) :
    after.toNode id = (store.toNode id).withChildren
      (Children.replace slot (after.toNode child) (store.toNode id).children) := by
  obtain ⟨left, right, split, before, present⟩ := split_of_child? linked.toAcyclic first
  rw [inPlace.toNode_parent linked split, Tree.withChildren, label_toNode linked.toAcyclic,
    children_toNode linked.toAcyclic, split, List.map_append, List.map_cons, Children.replace,
    Children.modify_split _ before present]

end Slots

theorem read_returningDraft (store : Store) (body : NodeId) {tree : Node}
    (read : store.toNode body = (tree.withSlot none).withTrivia " ") :
    (returningDraft body tree.trivia).read store = Bindings.returning tree := by
  rw [Bindings.returning, ← read]
  rfl

theorem blockBody_missing (none : store.child? id (some "body") = none) :
    blockBody id store = .error .noBody store := by
  rw [blockBody, run_get]
  simp only [none]
  rfl

theorem blockBody_places (linked : store.WellLinked) {body : NodeId}
    (first : store.child? id (some "body") = some body)
    (split : store.children id = left ++ body :: right) :
    ∃ block after, blockBody id store = .ok block after ∧
      Placed store id left right block (Bindings.asBlock (store.toNode body)) after ∧
      ((store.label body).kind = Bindings.blockKind → after = store) := by
  rw [blockBody, run_get, Bindings.asBlock, Tree.kind, label_toNode linked.toAcyclic]
  simp only [first]
  cases already : (store.label body).kind == Bindings.blockKind with
  | true =>
      exact ⟨body, store, rfl, ⟨.refl linked id, split, rfl, fun _ _ => rfl, rfl⟩, fun _ => rfl⟩
  | false =>
      obtain ⟨taken, loose, same⟩ := detached linked split
      have made : (returningDraft body (store.trivia body)).IsMade := trivial
      obtain ⟨read, confined, fresh⟩ :=
        wrapped taken.linked loose.within loose.parent none " " made rfl
      rw [← trivia_toNode linked.toAcyclic, ← same, read_returningDraft _ body read, same] at fresh
      rw [← trivia_toNode linked.toAcyclic] at confined
      refine ⟨_, _, ?_, exchanged linked split confined fresh, fun block => absurd block
        (beq_eq_false_iff_ne.mp already)⟩
      rw [trivia_toNode linked.toAcyclic]
      simp only [Bool.false_eq_true, if_false]
      rw [run_remove linked split, run_update, run_bind (make_eq _ _), Editing.insertAt, run_update]
      rfl

variable {block : NodeId} {statements : List NodeId}

theorem indentBefore_toNode (acyclic : store.Acyclic) (right : List NodeId) :
    store.indentBefore right.head? = Bindings.indentBefore (right.map store.toNode) := by
  cases right with
  | nil => rfl
  | cons following rest =>
      simp only [List.head?_cons, indentBefore, List.map_cons, Bindings.indentBefore,
        trivia_toNode acyclic, Tree.kind, label_toNode acyclic]

theorem setOff_reads (linked : store.WellLinked) (split : store.children block = left ++ right) :
    InPlace store block [] (store.setOff right.head?) ∧
      (store.setOff right.head?).children block = left ++ right ∧
      (store.setOff right.head?).label block = store.label block ∧
      left.map (store.setOff right.head?).toNode = left.map store.toNode ∧
      right.map (store.setOff right.head?).toNode = Bindings.setOff (right.map store.toNode) := by
  cases right with
  | nil => exact ⟨.refl linked block, split, rfl, rfl, rfl⟩
  | cons following rest =>
      have held := mem_of_split split
      have read := label_toNode linked.toAcyclic following
      simp only [List.head?_cons, setOff, List.map_cons, Bindings.setOff, Tree.kind, read]
      split
      next =>
        obtain ⟨changed, whole⟩ := inPlace_setLabel linked (linked.lt_of_mem held)
          { store.label following with lead := " " }
        obtain ⟨before, behind⟩ := changed.toNode_split linked split
        exact ⟨changed.up linked held, (changed.children_parent linked held).trans split,
          changed.label_parent linked held, before, by rw [whole, behind]⟩
      next => exact ⟨.refl linked block, split, rfl, rfl, rfl⟩

theorem inserted_led (indent : String) (linked : store.WellLinked)
    (within : block < store.cells.size) (split : store.children block = left ++ right)
    (loose : store.Loose block inner) :
    let after := (store.setTrivia inner indent).insertAt block left.length inner
    InPlace store block [inner] after ∧ after.children block = left ++ inner :: right ∧
      after.label block = store.label block ∧
      (∀ other ∈ left ++ right, after.toNode other = store.toNode other) ∧
      after.toNode inner = (store.toNode inner).withTrivia indent := by
  obtain ⟨led, read⟩ := inPlace_setTrivia linked loose.within indent
  have alone {part : NodeId} (inside : store.Contains block part) :
      ∀ free ∈ [inner], store.Loose part free := fun free member =>
    List.mem_singleton.mp member ▸ loose.below linked inside
  obtain ⟨grown, children, labelled, -⟩ := led.toConfined.inPlace linked within (alone .refl)
  have still : (store.setTrivia inner indent).Loose block inner :=
    ⟨loose.within.trans_le led.size, led.parent.trans loose.parent, fun above =>
      loose.outside (grown.contains_of_after linked above within)⟩
  have placed := inserted grown.linked (within.trans_le grown.size) still (children.trans split)
  refine ⟨grown.trans linked placed.toInPlace fun other member _ =>
      ⟨other, List.mem_cons_of_mem _ member, .refl⟩,
    placed.children, placed.label.trans labelled, fun other beside => ?_, ?_⟩
  · have held : other ∈ store.children block := split ▸ beside
    obtain ⟨-, -, -, same⟩ := led.toConfined.inPlace linked (linked.lt_of_mem held)
      (alone (.single held))
    exact (placed.reads other (mem_around beside)).trans same
  · exact (placed.reads inner (List.mem_append_right _ List.mem_cons_self)).trans read

theorem insertAll_places (indent : String) (linked : store.WellLinked)
    (within : block < store.cells.size) (split : store.children block = left ++ right)
    (distinct : statements.Nodup) (loose : ∀ free ∈ statements, store.Loose block free) :
    InPlace store block statements (insertAll block indent left.length store statements) ∧
      (insertAll block indent left.length store statements).toNode block =
        .node (store.label block) (left.map store.toNode ++
          ((statements.map store.toNode).map (Tree.withTrivia indent) ++ right.map store.toNode)) := by
  induction statements generalizing store left with
  | nil =>
      refine ⟨.refl linked block, ?_⟩
      rw [insertAll, linked.toAcyclic.toNode_eq, split, List.map_append]
      rfl
  | cons statement rest ih =>
      obtain ⟨new, later⟩ := List.nodup_cons.mp distinct
      obtain ⟨placed, children, labelled, beside, read⟩ :=
        inserted_led indent linked within split (loose statement List.mem_cons_self)
      have kept {free : NodeId} (member : free ∈ rest) :=
        placed.kept linked (loose free (List.mem_cons_of_mem _ member)) within fun same =>
          new (List.mem_singleton.mp same ▸ member)
      have further : _ = (left ++ [statement]) ++ right := children.trans (by simp)
      obtain ⟨others, whole⟩ := ih placed.linked (within.trans_le placed.size) further later
        fun free member => (kept member).1
      rw [List.length_append, List.length_singleton] at others whole
      refine ⟨(placed.widen loose fun free member => ?_).trans linked others fun free member _ =>
        ⟨free, List.mem_cons_of_mem _ (List.mem_cons_of_mem _ member), .refl⟩, ?_⟩
      · exact List.mem_singleton.mp member ▸ List.mem_cons_self
      · rw [insertAll, whole, labelled, List.map_append, List.map_singleton, read,
          List.map_congr_left fun other member => beside other (List.mem_append_left _ member),
          List.map_congr_left fun other member => beside other (List.mem_append_right _ member),
          List.map_congr_left fun other member => (kept member).2]
        simp

theorem split_of_findIdx? {α : Type} {test : α → Bool} {items : List α} {index : Nat}
    (found : items.findIdx? test = some index) :
    ∃ left item right, items = left ++ item :: right ∧ left.length = index ∧
      test item = true ∧ ∀ other ∈ left, test other = false := by
  obtain ⟨less, here, before⟩ := List.findIdx?_eq_some_iff_getElem.mp found
  refine ⟨items.take index, items[index], items.drop (index + 1), by simp, by simp; omega, here, ?_⟩
  intro other member
  obtain ⟨place, short, rfl⟩ := List.getElem_of_mem member
  rw [List.getElem_take]
  simpa using before place (by simp at short; omega)

theorem insertAfterBrace?_none {trees children : List Node}
    (closed : ∀ child ∈ children, (child.kind == "\x7b") = false) :
    Bindings.insertAfterBrace? trees children = none := by
  induction children with
  | nil => rfl
  | cons child rest ih =>
      rw [Bindings.insertAfterBrace?, closed child List.mem_cons_self,
        ih fun other member => closed other (List.mem_cons_of_mem _ member)]
      rfl

theorem insertAfterBrace?_split {trees left right : List Node} {brace : Node}
    (opening : (brace.kind == "\x7b") = true)
    (before : ∀ child ∈ left, (child.kind == "\x7b") = false) :
    Bindings.insertAfterBrace? trees (left ++ brace :: right) =
      some (left ++ brace ::
        (trees.map (Tree.withTrivia (Bindings.indentBefore right)) ++ Bindings.setOff right)) := by
  induction left with
  | nil => rw [List.nil_append, Bindings.insertAfterBrace?, if_pos opening, List.nil_append]
  | cons child rest ih =>
      rw [List.cons_append, Bindings.insertAfterBrace?, before child List.mem_cons_self,
        ih fun other member => before other (List.mem_cons_of_mem _ member)]
      rfl

theorem prepend_reads (linked : store.WellLinked) (within : block < store.cells.size)
    (distinct : statements.Nodup) (loose : ∀ free ∈ statements, store.Loose block free) :
    (Bindings.prepend? (store.toNode block) (statements.map store.toNode) = none ∧
      prepend block statements store = .error .unopenedBlock store) ∨
    ∃ after, prepend block statements store = .ok () after ∧
      InPlace store block statements after ∧
      Bindings.prepend? (store.toNode block) (statements.map store.toNode) =
        some (after.toNode block) := by
  have acyclic := linked.toAcyclic
  have kind (id : NodeId) : (store.toNode id).kind = (store.label id).kind :=
    congrArg Label.kind (label_toNode acyclic id)
  rw [prepend, run_get, Bindings.prepend?, children_toNode acyclic]
  cases found : (store.children block).findIdx? fun child => (store.label child).kind == "\x7b" with
  | none =>
      refine .inl ⟨?_, rfl⟩
      rw [insertAfterBrace?_none, Option.map_none]
      intro tree member
      obtain ⟨child, held, rfl⟩ := List.mem_map.mp member
      rw [kind]
      exact List.findIdx?_eq_none_iff.mp found child held
  | some index =>
      obtain ⟨left, brace, right, split, rfl, opening, before⟩ := split_of_findIdx? found
      have behind : store.children block = (left ++ [brace]) ++ right := by simpa using split
      obtain ⟨off, children, labelled, same, set⟩ := setOff_reads linked behind
      have kept {free : NodeId} (member : free ∈ statements) :=
        off.kept linked (loose free member) within List.not_mem_nil
      obtain ⟨placed, whole⟩ := insertAll_places (store.indentBefore right.head?) off.linked
        (within.trans_le off.size) children distinct fun free member => (kept member).1
      rw [List.length_append, List.length_singleton] at placed whole
      refine .inr ⟨insertAll block (store.indentBefore right.head?) (left.length + 1)
        (store.setOff right.head?) statements, ?_, ?_, ?_⟩
      · simp only [getElem?_behind split]
        rfl
      · refine (off.widen loose fun _ member => absurd member List.not_mem_nil).trans linked placed
          fun free member _ => ⟨free, List.mem_cons_of_mem _ member, .refl⟩
      · have closed : ∀ tree ∈ left.map store.toNode, (tree.kind == "\x7b") = false := by
          intro tree member
          obtain ⟨child, here, rfl⟩ := List.mem_map.mp member
          rw [kind]
          exact before child here
        rw [split, List.map_append, List.map_cons, insertAfterBrace?_split (kind brace ▸ opening) closed,
          whole, labelled, same, set, List.map_congr_left fun free member => (kept member).2,
          indentBefore_toNode acyclic, Option.map_some, Tree.withChildren, label_toNode acyclic]
        simp

end ScriptTyping.Store
