import ScriptTyping.Proofs.Node.Parts
import ScriptTyping.Proofs.Rule.Pass

set_option autoImplicit false

namespace ScriptTyping.Rule

open ScriptTyping.Tree

def isMarkup (label : Label) : Bool := Markup.kinds.contains label.kind

theorem marked_annotateParameters (taken : List String) (canLower : Bool) (children : List Node)
    (number : Nat) (session : Session) :
    (Functions.annotateParameters taken canLower children number session).session.marked =
      session.marked := by
  induction children generalizing number session with
  | nil => rfl
  | cons child rest ih =>
      rw [Functions.annotateParameters]
      cases Functions.changeOf canLower child <;> exact ih _ _

theorem marked_annotateResult (tree parameters : Node) (session : Session) :
    (Functions.annotateResult tree parameters session).2.marked = session.marked := by
  unfold Functions.annotateResult
  split
  · rfl
  · split <;> rfl

theorem marked_of_handle {rule : Rule} (other : rule ≠ markup) (number : Nat) (above : List Label)
    (tree : Node) (session : Session) :
    ((rule.handler number).handle above tree session).state.marked = session.marked := by
  cases rule with
  | declarations =>
      simp only [handler, Declarations.handler, Declarations.handle]
      repeat' split
      all_goals rfl
  | loopHeaders =>
      simp only [handler, LoopHeaders.handler, LoopHeaders.handle]
      repeat' split
      all_goals rfl
  | functions =>
      simp only [handler, Functions.handler, Functions.handle]
      split
      · rfl
      · split
        · rfl
        · split
          · exact marked_annotateParameters _ _ _ _ _
          · exact (marked_annotateResult _ _ _).trans (marked_annotateParameters _ _ _ _ _)
  | imports =>
      simp only [handler, Imports.handler, Imports.handle]
      repeat' split
      all_goals rfl
  | markup => exact absurd rfl other

theorem hasFound_of_handle (rule : Rule) (number detector : Nat) (above : List Label) (tree : Node)
    (session : Session) :
    ((rule.handler number).handle above tree session).state.hasFound detector =
      (session.hasFound detector || (rule, number) == (markup, detector)) := by
  by_cases other : rule = markup
  · subst other
    simp only [handler, Markup.handler, Markup.handle]
    split
    next found =>
      by_cases same : number = detector
      · subst same
        simp [found]
      · simp [same]
    next fresh =>
      by_cases same : number = detector
      · simp [same, Session.hasFound, Session.record]
      · simp [same, Ne.symm same, Session.hasFound, Session.record]
  · rw [Session.hasFound, marked_of_handle other]
    simp [other, Session.hasFound]

theorem hasFound_of_applyHandlers {rules : List Rule} {number : Nat} (detector : Nat)
    {above : List Label} {tree handled : Node} {session after : Session}
    (complete : applyHandlers above ((tableFrom number rules).handlersFor tree.kind) tree session =
      ⟨handled, after, none⟩) :
    handled.label = tree.label ∧
    after.hasFound detector = (session.hasFound detector ||
      ((rules.zipIdx number).contains (markup, detector) && isMarkup tree.label)) := by
  induction rules generalizing number tree session with
  | nil =>
      cases complete
      simp
  | cons rule rest ih =>
      rw [tableFrom, HandlerTable.handlersFor, List.filter_cons, kinds_handler] at complete
      by_cases member : tree.kind ∈ rule.kinds
      · have found := hasFound_of_handle rule number detector above tree session
        simp only [List.contains_iff_mem.mpr member, if_true, applyHandlers] at complete
        generalize same : (rule.handler number).handle above tree session = outcome at complete found
        obtain ⟨changed, middle, fault⟩ := outcome
        cases fault with
        | some fault => simp at complete
        | none =>
            have label := (effect_of_handler (by rwa [kinds_handler]) same).label
            have kind : changed.kind = tree.kind := congrArg Label.kind label
            simp only [← kind] at complete
            obtain ⟨later, others⟩ := ih complete
            refine ⟨later.trans label, ?_⟩
            have marks : rule = markup → isMarkup tree.label = true := by
              rintro rfl
              exact List.contains_iff_mem.mpr member
            rw [others, found, label, List.zipIdx_cons, List.contains_cons, BEq.comm]
            by_cases detects : rule = markup
            · simp [marks detects, Bool.or_assoc]
            · rw [beq_false_of_ne fun same => detects (congrArg Prod.fst same).symm]
              simp
      · have unmarked : rule = markup → isMarkup tree.label = false := by
          rintro rfl
          exact Bool.eq_false_iff.mpr fun marked => member (List.contains_iff_mem.mp marked)
        simp only [List.contains_iff_mem, member, if_false] at complete
        obtain ⟨label, others⟩ := ih complete
        refine ⟨label, ?_⟩
        rw [others, List.zipIdx_cons, List.contains_cons]
        by_cases detects : rule = markup
        · simp [unmarked detects]
        · rw [beq_false_of_ne fun same => detects (congrArg Prod.fst same).symm]
          simp

theorem hasFound_of_visits {rules : List Rule} {detector : Nat}
    (registered : (markup, detector) ∈ rules.zipIdx) {above : List Label} {tree final : Node}
    {session after : Session} (visits : Visits (table rules) above tree session final after) :
    after.hasFound detector = (session.hasFound detector || final.inners.any isMarkup) := by
  refine @Visits.rec _ (table rules)
    (fun _ _ session final after _ => after.hasFound detector =
      (session.hasFound detector || final.inners.any isMarkup))
    (fun _ _ session finals after _ => after.hasFound detector =
      (session.hasFound detector || (innersAll finals).any isMarkup)) ?_ ?_ ?_ ?_ _ _ _ _ _ visits
  · intro above tree session present
    obtain ⟨label, children⟩ := tree
    have leaf : label.isLeaf = true := present
    simp [inners, leaf]
  · intro above tree session handled after label children finals absent here below ih
    obtain ⟨same, found⟩ := hasFound_of_applyHandlers detector here
    have inner : label.isLeaf = false := by rwa [show label = tree.label from same]
    rw [ih, found, ← same]
    simp [inners, inner, registered, Bool.or_assoc]
  · intro above session
    simp [innersAll]
  · intro above tree final rest others session middle after first later ih ihs
    rw [ihs, ih]
    simp [innersAll, Bool.or_assoc]

theorem hasFound_of_walk {rules : List Rule} {detector : Nat}
    (registered : (markup, detector) ∈ rules.zipIdx) {tree : Node} {session : Session}
    (complete : (walk rules tree session).fault = none) :
    (walk rules tree session).state.hasFound detector =
      (session.hasFound detector || (walk rules tree session).tree.inners.any isMarkup) :=
  hasFound_of_visits registered (visits_of_walk (stepBudget tree) tree session complete)

end ScriptTyping.Rule
