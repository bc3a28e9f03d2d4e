import ScriptTyping.Proofs.Store.Printing

set_option autoImplicit false

namespace ScriptTyping.Store

open Relation

variable {store middle after : Store} {id parent child part other receiver : NodeId}
  {children tops others : List NodeId}

theorem cell_ext (label : after.label id = store.label id)
    (children : after.children id = store.children id) (parent : after.parent id = store.parent id) :
    after.cell id = store.cell id := by
  change Cell.mk (after.label id) (after.children id) (after.parent id) = store.cell id
  rw [label, children, parent]
  rfl

def Contains (store : Store) (id part : NodeId) : Prop := ReflTransGen store.HasChild id part

namespace WellLinked

variable (linked : store.WellLinked)

include linked

theorem lt_of_mem (held : child ∈ store.children id) : child < store.cells.size :=
  lt_of_parent ((linked.linked child id).mpr held)

theorem lt_of_contains (within : id < store.cells.size) (inside : store.Contains id part) :
    part < store.cells.size := by
  induction inside with
  | refl => exact within
  | tail _ held _ => exact linked.lt_of_mem held

theorem not_mem_own (id : NodeId) : id ∉ store.children id := fun held =>
  linked.toAcyclic id (.single held)

theorem not_contains_parent (held : child ∈ store.children id) : ¬ store.Contains child id :=
  fun inside => linked.toAcyclic id (TransGen.head' held inside)

theorem contains_iff : store.Contains id part ↔ ReflTransGen store.Under part id := by
  have same : store.HasChild = fun parent child => store.Under child parent := by
    funext parent child
    exact propext (linked.linked child parent).symm
  rw [Contains, same]
  exact reflTransGen_swap

theorem siblings_apart (here : child ∈ store.children id) (there : other ∈ store.children id)
    (apart : child ≠ other) (inside : store.Contains child part) : ¬ store.Contains other part :=
  fun also => linked.apart_of_children here there apart (linked.contains_iff.mp inside)
    (linked.contains_iff.mp also)

end WellLinked

theorem toNode_congr (acyclic : store.Acyclic) (acyclicAfter : after.Acyclic)
    (same : ∀ part, store.Contains id part →
      after.label part = store.label part ∧ after.children part = store.children part) :
    after.toNode id = store.toNode id := by
  induction id using acyclic.induct with
  | node id below =>
      obtain ⟨label, children⟩ := same id .refl
      rw [acyclicAfter.toNode_eq, acyclic.toNode_eq, label, children]
      refine congrArg (Tree.node _) (List.map_congr_left fun child held => ?_)
      exact below child held fun part inside => same part (inside.head held)

theorem label_toNode (acyclic : store.Acyclic) (id : NodeId) :
    (store.toNode id).label = store.label id := by
  rw [acyclic.toNode_eq]
  rfl

theorem children_toNode (acyclic : store.Acyclic) (id : NodeId) :
    (store.toNode id).children = (store.children id).map store.toNode := by
  rw [acyclic.toNode_eq]
  rfl

namespace Relinked

variable (relinked : Relinked store receiver children after) (acyclic : store.Acyclic)
  (acyclicAfter : after.Acyclic)

include relinked acyclic acyclicAfter

theorem toNode_other (apart : ¬ store.Contains id receiver) :
    after.toNode id = store.toNode id := by
  refine toNode_congr acyclic acyclicAfter fun part inside => ⟨relinked.label part, ?_⟩
  refine relinked.others part ?_
  rintro rfl
  exact apart inside

end Relinked

-- A node without a parent that is not above the given one.
structure Loose (store : Store) (id free : NodeId) : Prop where
  within : free < store.cells.size
  parent : store.parent free = none
  outside : ¬ store.Contains free id

namespace WellLinked

variable (linked : store.WellLinked)

include linked

theorem comparable (one : store.Contains id part) (two : store.Contains other part) :
    store.Contains id other ∨ store.Contains other id := by
  have single : Relator.RightUnique store.Under := fun _ _ _ one two =>
    Option.some.inj (one.symm.trans two)
  exact ((ReflTransGen.total_of_right_unique single (linked.contains_iff.mp one)
    (linked.contains_iff.mp two)).imp linked.contains_iff.mpr linked.contains_iff.mpr).symm

theorem eq_of_contains_free (free : store.parent id = none) (above : store.Contains other id) :
    other = id := by
  rcases ReflTransGen.cases_tail above with same | ⟨parent, -, held⟩
  · exact same.symm
  · rw [(linked.linked id parent).mpr held] at free
    cases free

theorem apart_of_free {first second : NodeId} (one : store.parent first = none)
    (two : store.parent second = none) (distinct : first ≠ second)
    (inside : store.Contains first part) : ¬ store.Contains second part := fun also =>
  (linked.comparable inside also).elim
    (fun above => distinct (linked.eq_of_contains_free two above))
    fun above => distinct (linked.eq_of_contains_free one above).symm

end WellLinked

namespace Loose

variable {free : NodeId} (loose : store.Loose id free) (linked : store.WellLinked)

include loose linked

theorem apart (inside : store.Contains id part) : ¬ store.Contains free part := fun also =>
  (linked.comparable also inside).elim loose.outside fun above =>
    loose.outside (linked.eq_of_contains_free loose.parent above ▸ .refl)

theorem below (inside : store.Contains id part) : store.Loose part free :=
  ⟨loose.within, loose.parent, loose.apart linked inside⟩

end Loose

def Inside (store : Store) (tops : List NodeId) (part : NodeId) : Prop :=
  ∃ top ∈ tops, store.Contains top part

theorem Inside.below (inside : store.Inside tops parent) (held : child ∈ store.children parent) :
    store.Inside tops child := by
  obtain ⟨top, member, way⟩ := inside
  exact ⟨top, member, way.tail held⟩

-- Nothing has changed but the nodes at the tops and below them, and there may be new nodes.
structure Confined (store : Store) (tops : List NodeId) (after : Store) : Prop where
  linked : after.WellLinked
  size : store.cells.size ≤ after.cells.size
  outside : ∀ part < store.cells.size, ¬ store.Inside tops part → after.cell part = store.cell part

theorem Relinked.confined (relinked : Relinked store receiver children after)
    (linked : after.WellLinked)
    (among : ∀ child ∈ children, child ∈ store.children receiver ∨ child ∈ tops) :
    Confined store (receiver :: tops) after where
  linked := linked
  size := relinked.size.ge
  outside part _ apart := by
    have own : store.Inside (receiver :: tops) receiver := ⟨_, List.mem_cons_self, .refl⟩
    have other : part ≠ receiver := fun same => apart (same ▸ own)
    have none : part ∉ store.children receiver := fun held => apart (own.below held)
    have new : part ∉ children := fun member =>
      (among part member).elim none fun given => apart ⟨part, List.mem_cons_of_mem _ given, .refl⟩
    have parent := relinked.parent part
    rw [if_neg new, if_neg none] at parent
    exact cell_ext (relinked.label part) (relinked.others part other) parent

namespace Confined

theorem refl (linked : store.WellLinked) (tops : List NodeId) : Confined store tops store :=
  ⟨linked, le_rfl, fun _ _ _ => rfl⟩

theorem mono (confined : Confined store tops after)
    (among : ∀ top ∈ tops, store.Inside others top) : Confined store others after where
  linked := confined.linked
  size := confined.size
  outside part within apart := confined.outside part within fun ⟨top, member, way⟩ => by
    obtain ⟨other, there, above⟩ := among top member
    exact apart ⟨other, there, above.trans way⟩

variable (confined : Confined store tops after) (linked : store.WellLinked)

include confined

theorem same_label (within : part < store.cells.size) (apart : ¬ store.Inside tops part) :
    after.label part = store.label part :=
  congrArg Cell.label (confined.outside part within apart)

theorem same_children (within : part < store.cells.size) (apart : ¬ store.Inside tops part) :
    after.children part = store.children part :=
  congrArg Cell.children (confined.outside part within apart)

theorem same_parent (within : part < store.cells.size) (apart : ¬ store.Inside tops part) :
    after.parent part = store.parent part :=
  congrArg Cell.parent (confined.outside part within apart)

include linked

theorem toNode_other (within : id < store.cells.size)
    (apart : ∀ part, store.Contains id part → ¬ store.Inside tops part) :
    after.toNode id = store.toNode id :=
  toNode_congr linked.toAcyclic confined.linked.toAcyclic fun part inside =>
    have there := linked.lt_of_contains within inside
    ⟨confined.same_label there (apart part inside), confined.same_children there (apart part inside)⟩

theorem inside_of_contains {top : NodeId} (old : top < store.cells.size → store.Inside tops top)
    (below : after.Contains top part) (within : part < store.cells.size) :
    store.Inside tops part := by
  by_contra apart
  induction below with
  | refl => exact apart (old within)
  | @tail above part _ held ih =>
      have under : store.parent part = some above :=
        (confined.same_parent within apart).symm.trans ((confined.linked.linked part above).mpr held)
      have holds := (linked.linked part above).mp under
      exact ih (lt_of_mem_children holds) fun inside => apart (inside.below holds)

theorem trans {others : List NodeId} (next : Confined after others middle)
    (old : ∀ other ∈ others, other < store.cells.size → store.Inside tops other) :
    Confined store tops middle where
  linked := next.linked
  size := confined.size.trans next.size
  outside part within apart := by
    have stays := next.outside part (within.trans_le confined.size) fun ⟨other, member, below⟩ =>
      apart (confined.inside_of_contains linked (old other member) below within)
    rw [stays, confined.outside part within apart]

end Confined

-- The tree at the node has become another one, and the given nodes may have gone into it.
structure InPlace (store : Store) (id : NodeId) (given : List NodeId) (after : Store) : Prop
    extends Confined store (id :: given) after where
  parent : after.parent id = store.parent id
  loose : ∀ free ∈ given, store.Loose id free

namespace InPlace

variable {given : List NodeId} {later : Store}

theorem refl (linked : store.WellLinked) (id : NodeId) : InPlace store id [] store :=
  ⟨.refl linked [id], rfl, fun _ member => absurd member List.not_mem_nil⟩

theorem widen (inPlace : InPlace store id given after)
    (more : ∀ free ∈ others, store.Loose id free)
    (among : ∀ free ∈ given, free ∈ others) :
    InPlace store id others after where
  toConfined := inPlace.toConfined.mono fun top member => by
    refine ⟨top, ?_, .refl⟩
    exact (List.mem_cons.mp member).elim (fun same => same ▸ List.mem_cons_self) fun gift =>
      List.mem_cons_of_mem _ (among top gift)
  parent := inPlace.parent
  loose := more

variable (inPlace : InPlace store id given after) (linked : store.WellLinked)

include inPlace linked

theorem step (next : Confined after tops later)
    (old : ∀ top ∈ tops, top < store.cells.size → store.Inside (id :: given) top)
    (kept : later.parent id = after.parent id) : InPlace store id given later :=
  ⟨inPlace.toConfined.trans linked next old, kept.trans inPlace.parent, inPlace.loose⟩

theorem trans (next : InPlace after id others later)
    (old : ∀ other ∈ others, other < store.cells.size → store.Inside (id :: given) other) :
    InPlace store id given later :=
  inPlace.step linked next.toConfined (fun top member within =>
    (List.mem_cons.mp member).elim (fun same => ⟨id, List.mem_cons_self, same ▸ .refl⟩)
      fun other => old top other within) next.parent

theorem again (next : InPlace after id [] later) : InPlace store id given later :=
  inPlace.trans linked next fun _ member => absurd member List.not_mem_nil

theorem outside_of_above (above : store.Contains part id) (other : part ≠ id) :
    ¬ store.Inside (id :: given) part := by
  rintro ⟨top, member, way⟩
  rcases List.mem_cons.mp member with rfl | free
  · rcases reflTransGen_iff_eq_or_transGen.mp way with same | down
    · exact other same
    · exact linked.toAcyclic _ (down.trans_left above)
  · exact (inPlace.loose top free).outside (way.trans above)

theorem contains_of_after (above : after.Contains other id) (within : id < store.cells.size) :
    store.Contains other id := by
  suffices up : ∀ part, ReflTransGen after.Under id part →
      part < store.cells.size ∧ store.Contains part id from
    (up other (inPlace.linked.contains_iff.mp above)).2
  intro part way
  induction way with
  | refl => exact ⟨within, .refl⟩
  | @tail part above _ under ih =>
      obtain ⟨there, inside⟩ := ih
      have same : after.parent part = store.parent part := by
        by_cases here : part = id
        · rw [here, inPlace.parent]
        · exact inPlace.same_parent there (inPlace.outside_of_above linked inside here)
      have held := (linked.linked part above).mp (same.symm.trans under)
      exact ⟨lt_of_mem_children held, inside.head held⟩

theorem loose_new {free : NodeId} (within : id < store.cells.size)
    (new : store.cells.size ≤ free) (inside : free < after.cells.size)
    (parent : after.parent free = none) : after.Loose id free := by
  refine ⟨inside, parent, fun above => ?_⟩
  have old : free < store.cells.size := by
    rcases ReflTransGen.cases_head (inPlace.contains_of_after linked above within) with
      rfl | ⟨_, held, -⟩
    · exact within
    · exact lt_of_mem_children held
  exact absurd old (Nat.not_lt.mpr new)

theorem kept {free : NodeId} (loose : store.Loose id free) (within : id < store.cells.size)
    (new : free ∉ given) : after.Loose id free ∧ after.toNode free = store.toNode free := by
  have apart : ∀ part, store.Contains free part → ¬ store.Inside (id :: given) part := by
    rintro part inside ⟨top, member, way⟩
    rcases List.mem_cons.mp member with rfl | gift
    · exact loose.apart linked way inside
    · refine linked.apart_of_free (inPlace.loose top gift).parent loose.parent ?_ way inside
      rintro rfl
      exact new gift
  have parent := inPlace.same_parent loose.within (apart free .refl)
  refine ⟨⟨loose.within.trans_le inPlace.size, parent.trans loose.parent, fun above => ?_⟩,
    inPlace.toNode_other linked loose.within apart⟩
  exact loose.outside (inPlace.contains_of_after linked above within)

end InPlace

-- Nothing has happened to the tree itself.
theorem Confined.inPlace {given : List NodeId} (confined : Confined store given after)
    (linked : store.WellLinked) (within : id < store.cells.size)
    (loose : ∀ free ∈ given, store.Loose id free) :
    InPlace store id given after ∧ after.children id = store.children id ∧
      after.label id = store.label id ∧ after.toNode id = store.toNode id := by
  have apart (part : NodeId) (inside : store.Contains id part) : ¬ store.Inside given part :=
    fun ⟨top, member, also⟩ => (loose top member).apart linked inside also
  have here := apart id .refl
  refine ⟨⟨confined.mono fun top member => ⟨top, List.mem_cons_of_mem _ member, .refl⟩,
    confined.same_parent within here, loose⟩, confined.same_children within here,
    confined.same_label within here, confined.toNode_other linked within apart⟩

section Focus

variable {given : List NodeId} (inPlace : InPlace store child given after)
  (linked : store.WellLinked) (held : child ∈ store.children id)

include inPlace linked held

theorem InPlace.apart_parent : ¬ store.Inside (child :: given) id :=
  inPlace.outside_of_above linked (.single held) fun same =>
    linked.not_mem_own child (same ▸ held)

theorem InPlace.up : InPlace store id given after where
  toConfined := inPlace.toConfined.mono fun top member => by
    rcases List.mem_cons.mp member with rfl | gift
    · exact ⟨id, List.mem_cons_self, .single held⟩
    · exact ⟨top, List.mem_cons_of_mem _ gift, .refl⟩
  parent := inPlace.same_parent (lt_of_mem_children held) (inPlace.apart_parent linked held)
  loose free gift :=
    ⟨(inPlace.loose free gift).within, (inPlace.loose free gift).parent, fun above =>
      (inPlace.loose free gift).outside (above.tail held)⟩

theorem InPlace.toNode_sibling (sibling : other ∈ store.children id) (apart : other ≠ child) :
    after.toNode other = store.toNode other := by
  refine inPlace.toNode_other linked (linked.lt_of_mem sibling) ?_
  rintro part inside ⟨top, member, way⟩
  rcases List.mem_cons.mp member with rfl | gift
  · exact linked.siblings_apart sibling held apart inside way
  · have loose := (inPlace.up linked held).loose top gift
    exact loose.apart linked (.head sibling inside) way

theorem InPlace.map_toNode_siblings {others : List NodeId} (apart : child ∉ others)
    (siblings : ∀ other ∈ others, other ∈ store.children id) :
    others.map after.toNode = others.map store.toNode :=
  List.map_congr_left fun other member =>
    inPlace.toNode_sibling linked held (siblings other member) fun same => apart (same ▸ member)

theorem InPlace.label_parent : after.label id = store.label id :=
  inPlace.same_label (lt_of_mem_children held) (inPlace.apart_parent linked held)

theorem InPlace.children_parent : after.children id = store.children id :=
  inPlace.same_children (lt_of_mem_children held) (inPlace.apart_parent linked held)

end Focus

section Split

variable {left right : List NodeId}

theorem mem_of_split (split : store.children id = left ++ child :: right) :
    child ∈ store.children id :=
  split ▸ List.mem_append_right left List.mem_cons_self

theorem WellLinked.sibling_of_split (linked : store.WellLinked)
    (split : store.children id = left ++ child :: right) (beside : other ∈ left ∨ other ∈ right) :
    other ∈ store.children id ∧ other ≠ child := by
  have distinct := linked.nodup_children id
  rw [split, List.nodup_middle, List.nodup_cons, List.mem_append, not_or] at distinct
  refine ⟨?_, ?_⟩
  · rw [split, List.mem_append, List.mem_cons]
    exact beside.imp_right .inr
  · rintro rfl
    exact beside.elim distinct.1.1 distinct.1.2

theorem InPlace.toNode_beside {given : List NodeId} (inPlace : InPlace store child given after)
    (linked : store.WellLinked) (split : store.children id = left ++ child :: right) :
    ∀ other ∈ left ++ right, after.toNode other = store.toNode other := fun _ beside =>
  have ⟨sibling, apart⟩ := linked.sibling_of_split split (List.mem_append.mp beside)
  inPlace.toNode_sibling linked (mem_of_split split) sibling apart

theorem InPlace.toNode_split {given : List NodeId} (inPlace : InPlace store child given after)
    (linked : store.WellLinked) (split : store.children id = left ++ child :: right) :
    left.map after.toNode = left.map store.toNode ∧
      right.map after.toNode = right.map store.toNode :=
  have same := inPlace.toNode_beside linked split
  ⟨List.map_congr_left fun other member => same other (List.mem_append_left _ member),
    List.map_congr_left fun other member => same other (List.mem_append_right _ member)⟩

theorem InPlace.toNode_parent {given : List NodeId} (inPlace : InPlace store child given after)
    (linked : store.WellLinked) (split : store.children id = left ++ child :: right) :
    after.toNode id = .node (store.label id)
      (left.map store.toNode ++ after.toNode child :: right.map store.toNode) := by
  have held := mem_of_split split
  obtain ⟨before, behind⟩ := inPlace.toNode_split linked split
  rw [inPlace.linked.toAcyclic.toNode_eq, inPlace.label_parent linked held,
    inPlace.children_parent linked held, split, List.map_append, List.map_cons, before, behind]

end Split

theorem InPlace.ancestors {given : List NodeId} (inPlace : InPlace store id given after)
    (linked : store.WellLinked) (count : Nat) :
    after.ancestors count id = store.ancestors count id := by
  induction count generalizing id with
  | zero => rfl
  | succ count ih =>
      unfold Store.ancestors
      rw [inPlace.parent]
      cases above : store.parent id with
      | none => rfl
      | some parent =>
          have held := (linked.linked id parent).mp above
          simp only [inPlace.label_parent linked held, ih (inPlace.up linked held)]

end ScriptTyping.Store
