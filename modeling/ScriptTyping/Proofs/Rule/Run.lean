import ScriptTyping.Proofs.Rule.Step

set_option autoImplicit false

namespace ScriptTyping.Rule

open ScriptTyping.Tree

structure Follows (whole : Node) (parent : Label) (above : List Label) (tree final : Node) :
    Prop where
  run : Converts above tree final
  known : Received whole parent tree

namespace Follows

variable {whole tree final : Node} {parent : Label} {above : List Label}

theorem label (follows : Follows whole parent above tree final) : final.label = tree.label :=
  follows.run.label

theorem kind (follows : Follows whole parent above tree final) : final.kind = tree.kind :=
  follows.run.kind

theorem slot (follows : Follows whole parent above tree final) : final.slot = tree.slot :=
  follows.run.slot

theorem isLeaf (follows : Follows whole parent above tree final) : final.isLeaf = tree.isLeaf :=
  follows.run.isLeaf

theorem cases (regular : whole.Regular) (follows : Follows whole parent above tree final) :
    (tree.isLeaf = true ∧ final = tree) ∨
      (tree.isLeaf = false ∧ ∃ handled finals, Effect above tree handled ∧
        final = handled.withChildren finals ∧
        List.Forall₂ (Follows whole handled.label ((handled.label :: above).take 2))
          handled.children finals) := by
  rcases follows.run.cases with leaf | ⟨inner, handled, finals, effect, same, below⟩
  · exact .inl leaf
  · refine .inr ⟨inner, handled, finals, effect, same, ?_⟩
    have known := received_of_effect regular follows.known inner effect
    exact ((List.forall₂_and_left _ _).mpr ⟨known, below⟩).imp fun _ _ both => ⟨both.2, both.1⟩

@[elab_as_elim]
theorem induct (regular : whole.Regular)
    {motive : ∀ parent above tree final, Follows whole parent above tree final → Prop}
    (leaf : ∀ parent above tree follows, tree.isLeaf = true →
      motive parent above tree tree follows)
    (inner : ∀ parent above tree handled finals follows, tree.isLeaf = false →
      Effect above tree handled →
      List.Forall₂ (fun child final => ∃ follows,
        motive handled.label ((handled.label :: above).take 2) child final follows)
        handled.children finals →
      motive parent above tree (handled.withChildren finals) follows)
    (follows : Follows whole parent above tree final) : motive parent above tree final follows := by
  obtain ⟨run, known⟩ := follows
  induction run using Converts.induct generalizing parent with
  | leaf above tree run present => exact leaf _ _ _ _ present
  | inner above tree handled finals run absent effect below =>
      refine inner _ _ _ _ _ _ absent effect ?_
      have received := received_of_effect regular known absent effect
      refine ((List.forall₂_and_left _ _).mpr ⟨received, below⟩).imp fun child final both => ?_
      obtain ⟨here, run, ih⟩ := both
      exact ⟨⟨run, here⟩, ih here⟩

end Follows

theorem received_whole {whole : Node} (regular : whole.Regular) (parent : Label) :
    Received whole parent whole := by
  have each (parent : Label) : ∀ part ∈ whole.subtrees, Traced Faithful whole parent part := by
    intro part member
    refine ⟨fun leaf => .inl (regular.childless part member leaf), fun _ _ =>
      ⟨part, member, .refl part⟩, fun leaf => .inl ?_⟩
    have token : part.label ∈ part.leaves := by
      obtain ⟨label, children⟩ := part
      simp [leaves_leaf label children leaf]
    exact ⟨_, (regular.leaves_sublist member).subset token, .refl _, .inl rfl⟩
  exact Sound.received ⟨each parent whole (self_mem_subtrees whole), below_of_subtrees each⟩

theorem follows_of_walk {whole : Node} {session : Session} (regular : whole.Regular)
    (complete : (walk all whole session).fault = none) :
    Follows whole whole.label [] whole (walk all whole session).tree :=
  ⟨converts_of_walk complete, received_whole regular _⟩

end ScriptTyping.Rule
