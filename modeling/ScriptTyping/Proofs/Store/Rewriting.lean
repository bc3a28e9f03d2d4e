import ScriptTyping.Proofs.Parse.Assembly
import ScriptTyping.Proofs.Rule.Budget
import ScriptTyping.Proofs.Store.Functions

set_option autoImplicit false

namespace ScriptTyping

open Store

namespace Rule

theorem linked_realises (number : Nat) (rule : Rule) :
    Realises (rule.linked number) (rule.handler number) := by
  cases rule with
  | declarations => exact declarations_realised number
  | loopHeaders => exact LoopHeaders.realised number
  | functions => exact Store.Functions.realised number
  | imports => exact imports_realised number
  | markup => exact markup_realised number

theorem linkedFrom_realises (number : Nat) (rules : List Rule) :
    List.Forall₂ Realises (linkedFrom number rules) (tableFrom number rules) := by
  induction rules generalizing number with
  | nil => exact .nil
  | cons rule rest ih => exact .cons (linked_realises number rule) (ih (number + 1))

/-- With any of the five rules, the loop over a stack of linked nodes ends, and what it leaves reads as
the tree that the walk leaves. -/
theorem linked_walk {store : Store} {root : NodeId} (well : store.WellLinked)
    (within : root < store.cells.size) (free : store.parent root = none) (rules : List Rule)
    (session : Session) :
    Ends (walkStep (linkedTable rules)) ([root], store, session)
        (Store.walk (linkedTable rules) root store session) ∧
      Agrees store root (Store.walk (linkedTable rules) root store session)
        (walk rules (store.toNode root) session) :=
  (walk_realises (linkedFrom_realises 0 rules) well within free session).1 _
    (walk_never_out_of_steps rules (store.toNode root) session)

end Rule

/-- From a parse to the printed text, the linked nodes and the tree give the same. -/
theorem assembled_walk {source : ByteArray} {tree : ParseTree} {store : Store}
    (assembled : assemble source tree = .ok store) (rules : List Rule) (session : Session) :
    ∃ root, hydrate source tree = .ok root ∧
      Ends (walkStep (Rule.linkedTable rules)) ([0], store, session)
        (Store.walk (Rule.linkedTable rules) 0 store session) ∧
      Agrees store 0 (Store.walk (Rule.linkedTable rules) 0 store session)
        (Rule.walk rules root session) ∧
      (Store.walk (Rule.linkedTable rules) 0 store session).store.text 0 =
        (Rule.walk rules root session).tree.text := by
  rw [assemble_eq] at assembled
  cases read : hydrate source tree with
  | error fault => simp [read, Functor.map, Except.map] at assembled
  | ok root =>
      simp only [read, Functor.map, Except.map, Except.ok.injEq] at assembled
      have holds := assembled ▸ holds_plant _ root
      have within : 0 < store.cells.size := by
        rw [holds.size]
        cases root
        exact Nat.lt_add_right _ Nat.one_pos
      obtain ⟨ends, agrees⟩ := Rule.linked_walk holds.linked within holds.top rules session
      rw [holds.toNode] at agrees
      exact ⟨root, rfl, ends, agrees,
        (text_toNode agrees.confined.linked.toAcyclic 0).symm.trans (congrArg Tree.text agrees.tree)⟩

end ScriptTyping
