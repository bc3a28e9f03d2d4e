import ScriptTyping.Proofs.Store.Printing

set_option autoImplicit false

namespace ScriptTyping.Store

open Relation

variable {store after : Store} {id leaf : NodeId} {lead : String}

section Read

variable (acyclic : store.Acyclic)

include acyclic

theorem text_toNode (id : NodeId) : (store.toNode id).text = store.text id := by
  rw [text_eq acyclic]
  induction id using acyclic.induct with
  | node id below =>
      rw [acyclic.toNode_eq]
      cases leaf : store.isLeaf id with
      | true =>
          obtain ⟨token, present⟩ := token_of_leaf leaf
          rw [Tree.text_leaf _ _ token present, acyclic.written_leaf present]
      | false =>
          have each : (store.children id).map (Tree.text ∘ store.toNode) =
              (store.children id).map store.written := List.map_congr_left below
          rw [Tree.text_branch _ _ (token_of_inner leaf), acyclic.written_inner leaf, List.map_map, each]

theorem leaves_toNode (id : NodeId) :
    (store.toNode id).leaves = (store.leaves id).map store.label := by
  rw [leaves_eq acyclic]
  induction id using acyclic.induct with
  | node id below =>
      rw [acyclic.toNode_eq]
      cases leaf : store.isLeaf id with
      | true =>
          rw [Tree.leaves_leaf _ _ leaf, acyclic.tokens_leaf leaf, List.map_singleton]
      | false =>
          rw [Tree.leaves_branch _ _ leaf, acyclic.tokens_inner leaf, List.flatMap_map,
            List.map_flatMap]
          exact List.flatMap_congr below

theorem trivia_toNode (id : NodeId) : (store.toNode id).trivia = store.trivia id := by
  rw [Tree.trivia, Tree.firstLeaf?_eq, leaves_toNode acyclic, trivia, firstLeaf?_eq acyclic,
    leaves_eq acyclic, List.head?_map]
  cases (store.tokens id).head? <;> rfl

theorem sourceText_toNode (id : NodeId) : (store.toNode id).sourceText = store.sourceText id := by
  rw [Tree.sourceText, text_toNode acyclic, trivia_toNode acyclic, sourceText]

end Read

structure Releads (store : Store) (leaf : NodeId) (lead : String) (after : Store) : Prop where
  size : after.cells.size = store.cells.size
  own : after.cell leaf = { store.cell leaf with label := { store.label leaf with lead } }
  others : ∀ id, id ≠ leaf → after.cell id = store.cell id

theorem releads_setLabel (within : leaf < store.cells.size) :
    Releads store leaf lead (store.setLabel leaf { store.label leaf with lead }) where
  size := size_setLabel _
  own := by
    rw [setLabel, cell_modify, if_pos ⟨rfl, within⟩]
  others id other := by
    rw [setLabel, cell_modify, if_neg fun same => other same.1.symm]

namespace Releads

variable (releads : Releads store leaf lead after)

include releads

theorem children (id : NodeId) : after.children id = store.children id := by
  by_cases same : id = leaf
  · rw [same, Store.children, releads.own, Store.children]
  · rw [Store.children, releads.others id same, Store.children]

theorem label (id : NodeId) :
    after.label id = if id = leaf then { store.label leaf with lead } else store.label id := by
  split
  next same => rw [same, Store.label, releads.own]
  next other => rw [Store.label, releads.others id other, Store.label]

theorem isLeaf : after.isLeaf = store.isLeaf := by
  funext id
  rw [Store.isLeaf, Store.isLeaf, releads.label]
  split
  next same => rw [same, Label.isLeaf, Label.isLeaf]
  next => rfl

theorem ownText_other (other : id ≠ leaf) : after.ownText id = store.ownText id := by
  rw [ownText, ownText, releads.label, if_neg other]

theorem ownText_self {token : String} (present : (store.label leaf).token = some token) :
    after.ownText leaf = lead ++ token := by
  have label := releads.label leaf
  rw [if_pos rfl] at label
  rw [ownText, label]
  simp only [present]

theorem acyclic (acyclic : store.Acyclic) : after.Acyclic := acyclic.congr releads.children

theorem printOrder (acyclic : store.Acyclic) (id : NodeId) :
    after.printOrder id = store.printOrder id := by
  have acyclicAfter := releads.acyclic acyclic
  induction id using acyclic.induct with
  | node id below =>
      cases leaf : store.isLeaf id with
      | true =>
          rw [acyclic.printOrder_leaf leaf, acyclicAfter.printOrder_leaf (releads.isLeaf ▸ leaf)]
      | false =>
          rw [acyclic.printOrder_inner leaf, acyclicAfter.printOrder_inner (releads.isLeaf ▸ leaf),
            releads.children, List.flatMap_congr below]

theorem tokens (acyclic : store.Acyclic) (id : NodeId) : after.tokens id = store.tokens id := by
  rw [Store.tokens, releads.printOrder acyclic, releads.isLeaf, Store.tokens]

end Releads

-- No text that stands after a node is printed before the first leaf.
def StartsAtLeaf (store : Store) (id : NodeId) : Prop :=
  ∀ part ∈ (store.printOrder id).takeWhile (fun part => !store.isLeaf part),
    (store.label part).trail = ""

theorem lt_of_isLeaf (leaf : store.isLeaf id = true) : id < store.cells.size := by
  by_contra outside
  simp [isLeaf, label, cell, Array.getD_eq_getD_getElem?,
    Array.getElem?_eq_none (Nat.le_of_not_lt outside),
    show (default : Cell).label = default from rfl, show (default : Label).isLeaf = false from rfl] at leaf

theorem trivia_of_firstLeaf (first : store.firstLeaf? id = some leaf) :
    store.trivia id = (store.label leaf).lead := by
  rw [trivia, first]

theorem sourceText_of_text {rest : String} (text : store.text id = store.trivia id ++ rest) :
    store.sourceText id = rest := by
  rw [sourceText, text, String.toList_append, ← String.length_toList, List.drop_left,
    String.ofList_toList]

theorem join_filter {α : Type} (keep : α → Bool) (write : α → String) (items : List α)
    (quiet : ∀ item ∈ items, keep item = false → write item = "") :
    String.join ((items.filter keep).map write) = String.join (items.map write) := by
  induction items with
  | nil => rfl
  | cons item rest ih =>
      have there := ih fun other member => quiet other (List.mem_cons_of_mem _ member)
      cases kept : keep item with
      | true => simp [kept, there]
      | false => simp [kept, there, quiet item List.mem_cons_self kept]

section First

variable (acyclic : store.Acyclic)

include acyclic

theorem isLeaf_of_firstLeaf (first : store.firstLeaf? id = some leaf) : store.isLeaf leaf = true := by
  rw [firstLeaf?_eq acyclic] at first
  exact (List.mem_filter.mp (List.mem_of_head? first)).2

theorem printOrder_split (first : store.firstLeaf? id = some leaf) :
    ∃ ahead behind, store.printOrder id = ahead ++ leaf :: behind ∧
      ∀ part ∈ ahead, store.isLeaf part = false := by
  rw [firstLeaf?_eq acyclic, tokens, List.head?_filter, List.find?_eq_some_iff_append] at first
  obtain ⟨-, ahead, behind, split, inner⟩ := first
  exact ⟨ahead, behind, split, fun part member => by simpa using inner part member⟩

theorem text_of_split {ahead behind : List NodeId}
    (split : store.printOrder id = ahead ++ leaf :: behind)
    (blank : ∀ part ∈ ahead, store.ownText part = "") :
    store.text id = store.ownText leaf ++ String.join (behind.map store.ownText) := by
  have none := join_filter (fun _ => false) store.ownText ahead fun part member _ => blank part member
  rw [List.filter_false, List.map_nil, String.join_nil] at none
  rw [text_eq acyclic, written, split, List.map_append, String.join_append, ← none, List.map_cons,
    String.join_cons, String.empty_append]

theorem releads_setTrivia (first : store.firstLeaf? id = some leaf) (lead : String) :
    Releads store leaf lead (store.setTrivia id lead) := by
  rw [setTrivia, first]
  exact releads_setLabel (lt_of_isLeaf (isLeaf_of_firstLeaf acyclic first))

theorem trivia_setTrivia (first : store.firstLeaf? id = some leaf) (lead : String) :
    (store.setTrivia id lead).trivia id = lead := by
  have releads := releads_setTrivia acyclic first lead
  have same : (store.setTrivia id lead).firstLeaf? id = some leaf := by
    rw [firstLeaf?_eq (releads.acyclic acyclic), releads.tokens acyclic, ← firstLeaf?_eq acyclic, first]
  rw [trivia_of_firstLeaf same, releads.label, if_pos rfl]

theorem text_releads (first : store.firstLeaf? id = some leaf) (starts : store.StartsAtLeaf id) :
    ∃ rest, store.text id = store.trivia id ++ rest ∧
      ((store.printOrder id).Nodup → ∀ lead, (store.setTrivia id lead).text id = lead ++ rest) := by
  obtain ⟨ahead, behind, split, inner⟩ := printOrder_split acyclic first
  have leaf := isLeaf_of_firstLeaf acyclic first
  obtain ⟨token, present⟩ := token_of_leaf leaf
  have blank : ∀ part ∈ ahead, store.ownText part = "" := by
    intro part member
    rw [ownText_inner (inner part member)]
    refine starts part ?_
    rw [split, List.takeWhile_append_of_pos fun part member => by simp [inner part member]]
    exact List.mem_append_left _ member
  refine ⟨token ++ String.join (behind.map store.ownText), ?_, fun nodup lead => ?_⟩
  · rw [text_of_split acyclic split blank, ownText_leaf present, trivia_of_firstLeaf first,
      String.append_assoc]
  · have releads := releads_setTrivia acyclic first lead
    rw [split] at nodup
    have apart := List.nodup_cons.mp (List.nodup_append.mp nodup).2.1
    have later : ∀ part ∈ behind, (store.setTrivia id lead).ownText part = store.ownText part :=
      fun part member => releads.ownText_other fun same => apart.1 (same ▸ member)
    have earlier : ∀ part ∈ ahead, (store.setTrivia id lead).ownText part = "" := by
      intro part member
      rw [releads.ownText_other, blank part member]
      rintro rfl
      exact Bool.false_ne_true ((inner part member).symm.trans leaf)
    rw [text_of_split (releads.acyclic acyclic) ((releads.printOrder acyclic id).trans split) earlier,
      releads.ownText_self present, List.map_congr_left later, String.append_assoc]

theorem text_of_trailless
    (trailless : ∀ below, ReflTransGen store.HasChild id below → (store.label below).trail = "") :
    store.text id = String.join ((store.leaves id).map store.ownText) := by
  have quiet : ∀ part ∈ store.printOrder id, store.isLeaf part = false →
      store.ownText part = "" := by
    intro part member inner
    rw [ownText_inner inner]
    exact trailless part (ReflTransGen.mono (fun _ _ opens => opens.2) _ _
      ((acyclic.mem_printOrder id).mp member))
  rw [text_eq acyclic, leaves_eq acyclic, tokens, join_filter _ _ _ quiet, written]

end First

-- How a node is printed. All loops end. A leaf is printed as its lead and its token, any other node
-- as its children one after another and then its trail. The leaves come in the same order, and they
-- are all that can be reached without looking below another leaf. The tree that is read off is
-- printed in the same way.
structure Printed (store : Store) (id : NodeId) : Prop where
  text_ends : Ends store.printStep ([.node id], "") (store.text id)
  leaves_end : Ends store.leavesStep ([id], #[]) (store.leaves id).toArray
  firstLeaf_ends : Ends store.firstLeafStep [id] (store.firstLeaf? id)
  leaf : ∀ token, (store.label id).token = some token →
    store.text id = (store.label id).lead ++ token ∧ store.leaves id = [id]
  inner : (store.label id).token = none →
    store.text id =
        String.join ((store.children id).map store.text) ++ (store.label id).trail ∧
      store.leaves id = (store.children id).flatMap store.leaves
  firstLeaf : store.firstLeaf? id = (store.leaves id).head?
  reached : ∀ leaf, leaf ∈ store.leaves id ↔
    store.isLeaf leaf = true ∧ ReflTransGen store.Opens id leaf
  ordered : store.text id = String.join ((store.printOrder id).map store.ownText) ∧
    store.leaves id = (store.printOrder id).filter store.isLeaf
  read : (store.toNode id).text = store.text id ∧
    (store.toNode id).leaves = (store.leaves id).map store.label ∧
    (store.toNode id).trivia = store.trivia id ∧
    (store.toNode id).sourceText = store.sourceText id

theorem Acyclic.printed (acyclic : store.Acyclic) (id : NodeId) : Printed store id where
  text_ends := text_eq acyclic id ▸ print_ends acyclic id
  leaves_end := leaves_eq acyclic id ▸ Store.leaves_end acyclic id
  firstLeaf_ends := firstLeaf?_eq acyclic id ▸ Store.firstLeaf_ends acyclic id
  leaf token present := by
    rw [text_eq acyclic, leaves_eq acyclic]
    exact ⟨acyclic.written_leaf present, acyclic.tokens_leaf (leaf_of_token present)⟩
  inner none := by
    have inner := inner_of_token none
    rw [funext (text_eq acyclic), funext (leaves_eq acyclic)]
    exact ⟨acyclic.written_inner inner, acyclic.tokens_inner inner⟩
  firstLeaf := by rw [firstLeaf?_eq acyclic, leaves_eq acyclic]
  reached leaf := by
    rw [leaves_eq acyclic, tokens, List.mem_filter, acyclic.mem_printOrder, and_comm]
  ordered := ⟨text_eq acyclic id, leaves_eq acyclic id⟩
  read := ⟨text_toNode acyclic id, leaves_toNode acyclic id, trivia_toNode acyclic id,
    sourceText_toNode acyclic id⟩

/-- In an acyclic store every node is printed by its parts. Without trails that is the leads and tokens of its
leaves. The lead of its first leaf can be exchanged, and if nothing is printed before that leaf, its text is the
lead and the text without it; the latter stays when the lead changes, as long as no node is printed twice. -/
theorem printed_and_releaded (acyclic : store.Acyclic) (id : NodeId) :
    Printed store id ∧
      ((∀ below, ReflTransGen store.HasChild id below → (store.label below).trail = "") →
        store.text id = String.join ((store.leaves id).map store.ownText)) ∧
      ∀ leaf, store.firstLeaf? id = some leaf →
        (∀ lead, Releads store leaf lead (store.setTrivia id lead) ∧
          (store.setTrivia id lead).trivia id = lead) ∧
        (store.StartsAtLeaf id →
          store.text id = store.trivia id ++ store.sourceText id ∧
            ((store.printOrder id).Nodup → ∀ lead,
              (store.setTrivia id lead).sourceText id = store.sourceText id ∧
                (store.setTrivia id lead).text id = lead ++ store.sourceText id)) := by
  refine ⟨acyclic.printed id, text_of_trailless acyclic, fun leaf first => ⟨fun lead => ?_, ?_⟩⟩
  · exact ⟨releads_setTrivia acyclic first lead, trivia_setTrivia acyclic first lead⟩
  · intro starts
    obtain ⟨rest, own, changed⟩ := text_releads acyclic first starts
    have source := sourceText_of_text own
    refine ⟨by rw [source, own], fun nodup lead => ?_⟩
    have after := changed nodup lead
    have kept : (store.setTrivia id lead).sourceText id = rest :=
      sourceText_of_text (by rw [after, trivia_setTrivia acyclic first])
    exact ⟨by rw [kept, source], by rw [after, source]⟩

private def sharedPair : Store :=
  let token (text lead : String) : Cell :=
    ⟨{ kind := "identifier", slot := none, token := some text, lead, trail := "" }, [], some 3⟩
  let inner (kind trail : String) (children : List NodeId) (parent : Option NodeId) : Cell :=
    ⟨{ kind, slot := none, token := none, lead := "", trail }, children, parent⟩
  ⟨#[token "a" " ", token "" "", inner "empty_statement" "" [] (some 4),
    inner "pair" " ;" [0, 1] (some 5), inner "program" "\n" [2, 3] none,
    inner "array" "" [3, 3] none, inner "sequence" "" [2, 0, 1, 0] none]⟩

theorem sharedPair_printed :
    sharedPair.Acyclic ∧ sharedPair.firstLeaf? 4 = some 0 ∧ sharedPair.StartsAtLeaf 4 ∧
      (sharedPair.printOrder 4).Nodup ∧ sharedPair.text 4 = " a ;\n" ∧
      sharedPair.text 5 = " a ; a ;" ∧ sharedPair.leaves 5 = [0, 1, 0, 1] ∧
      (∀ below, ReflTransGen sharedPair.HasChild 6 below → (sharedPair.label below).trail = "") ∧
      sharedPair.text 6 = String.join ((sharedPair.leaves 6).map sharedPair.ownText) ∧
      (sharedPair.setTrivia 4 "\t").sourceText 4 = "a ;\n" ∧
      (sharedPair.setTrivia 4 "\t").text 4 = "\ta ;\n" := by
  have acyclic : sharedPair.Acyclic := acyclic_of_descends id (by decide +kernel)
  obtain ⟨pair, -, relead⟩ := printed_and_releaded acyclic 4
  obtain ⟨twice, -, -⟩ := printed_and_releaded acyclic 5
  obtain ⟨-, bare, -⟩ := printed_and_releaded acyclic 6
  have order : sharedPair.printOrder 4 = [2, 0, 1, 3, 4] := by decide +kernel
  have first : sharedPair.firstLeaf? 4 = some 0 := by
    rw [pair.firstLeaf, pair.ordered.2]
    decide +kernel
  have text : sharedPair.text 4 = " a ;\n" := by
    rw [pair.ordered.1]
    decide +kernel
  have starts : sharedPair.StartsAtLeaf 4 := by
    unfold StartsAtLeaf
    decide +kernel
  have nodup : (sharedPair.printOrder 4).Nodup := by
    rw [order]
    decide
  have trailless : ∀ below, ReflTransGen sharedPair.HasChild 6 below →
      (sharedPair.label below).trail = "" := by
    intro below way
    have among : below ∈ [6, 2, 0, 1] := by
      induction way with
      | refl => decide
      | tail _ held ih =>
          have closed : ∀ upper ∈ [6, 2, 0, 1], ∀ child ∈ sharedPair.children upper,
              child ∈ [6, 2, 0, 1] := by decide +kernel
          exact closed _ ih _ held
    have bare : ∀ id ∈ [6, 2, 0, 1], (sharedPair.label id).trail = "" := by decide +kernel
    exact bare below among
  have source : sharedPair.sourceText 4 = "a ;\n" := by
    rw [sourceText, text, trivia_of_firstLeaf first]
    decide +kernel
  obtain ⟨-, exchange⟩ := (relead 0 first).2 starts
  obtain ⟨kept, changed⟩ := exchange nodup "\t"
  refine ⟨acyclic, first, starts, nodup, text, ?_, ?_, trailless, bare trailless, kept.trans source, ?_⟩
  · rw [twice.ordered.1]
    decide +kernel
  · rw [twice.ordered.2]
    decide +kernel
  · rw [changed, source]
    rfl

end ScriptTyping.Store
