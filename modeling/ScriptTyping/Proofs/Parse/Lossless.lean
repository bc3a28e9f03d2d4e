import ScriptTyping.Parse.Hydrate
import ScriptTyping.Proofs.Text.Boundary

set_option autoImplicit false

namespace ScriptTyping

namespace Tree

variable {α : Type}

mutual

def ends : Tree α → List α
  | node label children => if children.isEmpty then [label] else endsAll children

def endsAll : List (Tree α) → List α
  | [] => []
  | tree :: rest => ends tree ++ endsAll rest

end

end Tree

def parsedLeaves (tree : ParseTree) : List ParseLabel := Tree.endsAll tree.children

-- No leaf ends before it starts, and none starts before the end of an earlier one.
def LeavesOrdered (leaves : List ParseLabel) : Prop :=
  (∀ leaf ∈ leaves, leaf.start ≤ leaf.stop) ∧
    leaves.Pairwise fun earlier later => earlier.stop ≤ later.start

def leafRows (rows : List (ParseLabel × Nat)) : List ParseLabel :=
  (rows.filter fun row => row.2 = 0).map (·.1)

theorem leafRows_cons_leaf (label : ParseLabel) (rows : List (ParseLabel × Nat)) :
    leafRows ((label, 0) :: rows) = label :: leafRows rows := by
  simp [leafRows]

theorem leafRows_cons_inner (label : ParseLabel) (count : Nat) (some : count ≠ 0)
    (rows : List (ParseLabel × Nat)) : leafRows ((label, count) :: rows) = leafRows rows := by
  simp [leafRows, some]

theorem leafRows_append (left right : List (ParseLabel × Nat)) :
    leafRows (left ++ right) = leafRows left ++ leafRows right := by
  simp [leafRows]

theorem leafRows_preorderAll (trees : List ParseTree)
    (each : ∀ tree ∈ trees, leafRows tree.preorder = tree.ends) :
    leafRows (Tree.preorderAll trees) = Tree.endsAll trees := by
  induction trees with
  | nil => rfl
  | cons tree rest ih =>
      have there := ih fun other present => each other (by simp [present])
      rw [Tree.preorderAll, Tree.endsAll, leafRows_append, each tree (by simp), there]

theorem leafRows_preorder (tree : ParseTree) : leafRows tree.preorder = tree.ends := by
  induction tree using Tree.induct with
  | node label children ih =>
      have below := leafRows_preorderAll children ih
      cases children with
      | nil => simp [Tree.preorder, Tree.preorderAll, Tree.ends, leafRows]
      | cons child rest =>
          rw [Tree.preorder, leafRows_cons_inner _ _ (by simp), below]
          simp [Tree.ends]

def rowText (row : Label × Nat) : String :=
  match row.1.token with
  | some token => row.1.lead ++ token
  | none => ""

def RowSound (row : Label × Nat) : Prop :=
  match row.1.token with
  | some _ => row.2 = 0
  | none => row.1.trail = ""

theorem join_text_gather (row : Label × Nat) (sound : RowSound row) (trees : List Node) :
    String.join ((Tree.gather row trees).map Tree.text) =
      rowText row ++ String.join (trees.map Tree.text) := by
  obtain ⟨label, count⟩ := row
  cases present : label.token with
  | some token =>
      have none : count = 0 := by simpa [RowSound, present] using sound
      simp [Tree.gather, none, Tree.text_leaf label _ token present, rowText, present]
  | none =>
      have quiet : label.trail = "" := by simpa [RowSound, present] using sound
      have split := congrArg String.join (List.take_append_drop count (trees.map Tree.text))
      rw [String.join_append] at split
      simp [Tree.gather, Tree.text_branch label _ present, quiet, rowText, present, split]

theorem join_text_forest (rows : List (Label × Nat)) (sound : ∀ row ∈ rows, RowSound row) :
    String.join ((Tree.forest rows).map Tree.text) = String.join (rows.map rowText) := by
  induction rows with
  | nil => simp [Tree.forest]
  | cons row rest ih =>
      have there := ih fun other present => sound other (by simp [present])
      have here := join_text_gather row (sound row (by simp)) (Tree.forest rest)
      simp only [Tree.forest, List.foldr_cons] at here there ⊢
      rw [here, there, List.map_cons, String.join_cons]

namespace Hydration

structure Faithful (source : String) (state : Hydration) : Prop where
  boundary : Utf8.OnBoundary source state.reached
  printed : (String.join (state.rows.toList.map rowText)).toUTF8 =
    source.toUTF8.extract 0 state.reached
  sound : ∀ row ∈ state.rows.toList, RowSound row

variable {source : String} {state : Hydration}

theorem faithful_start (source : String) : Faithful source ⟨0, #[]⟩ where
  boundary := Utf8.onBoundary_zero source
  printed := by simp
  sound := by simp

theorem add_inner (faithful : Faithful source state) (label : ParseLabel) (count : Nat)
    (some : count ≠ 0) :
    ∃ after, add source.toUTF8 state (label, count) = .ok after ∧ Faithful source after ∧
      after.reached = state.reached := by
  refine ⟨⟨state.reached, state.rows.push (label.inner (state.rows.size + 1), count)⟩, ?_, ?_, rfl⟩
  · simp [add, some, pure, Except.pure]
  · refine ⟨faithful.boundary, ?_, ?_⟩
    · simpa [rowText, ParseLabel.inner] using faithful.printed
    · intro row member
      rcases (by simpa using member : row ∈ state.rows ∨ _) with old | rfl
      · exact faithful.sound row (by simpa using old)
      · simp [RowSound, ParseLabel.inner]

theorem add_leaf (faithful : Faithful source state) (label : ParseLabel)
    (after : state.reached ≤ label.start) (ordered : label.start ≤ label.stop)
    (start : Utf8.OnBoundary source label.start) (stop : Utf8.OnBoundary source label.stop) :
    ∃ next, add source.toUTF8 state (label, 0) = .ok next ∧ Faithful source next ∧
      next.reached = label.stop := by
  obtain ⟨token, readToken⟩ := (Utf8.decodeRange_eq_ok_iff source _ _ ordered).mpr
    (.inr ⟨start, stop⟩)
  obtain ⟨lead, readLead⟩ := (Utf8.decodeRange_eq_ok_iff source _ _ after).mpr
    (.inr ⟨faithful.boundary, start⟩)
  have furthest : max state.reached label.stop = label.stop := by omega
  let inner := label.inner (state.rows.size + 1)
  refine ⟨⟨label.stop, state.rows.push ({ inner with token := some token, lead }, 0)⟩, ?_, ?_, rfl⟩
  · rw [String.toUTF8_eq_toByteArray] at readToken readLead
    simp [add, readToken, readLead, furthest, inner, bind, Except.bind, pure, Except.pure]
  · refine ⟨stop, ?_, ?_⟩
    · have upToStart := ByteArray.extract_eq_extract_append_extract
        (a := source.toUTF8) state.reached (Nat.zero_le _) after
      have upToStop := ByteArray.extract_eq_extract_append_extract
        (a := source.toUTF8) label.start (Nat.zero_le _) ordered
      rw [upToStop, upToStart, ← faithful.printed, ← Utf8.toUTF8_decodeRange readLead,
        ← Utf8.toUTF8_decodeRange readToken]
      simp [rowText, ByteArray.append_assoc]
    · intro row member
      rcases (by simpa using member : row ∈ state.rows ∨ _) with old | rfl
      · exact faithful.sound row (by simpa using old)
      · simp [RowSound]

theorem add_leaf_fails (faithful : Faithful source state) (label : ParseLabel)
    (after : state.reached ≤ label.start) (ordered : label.start ≤ label.stop)
    (split : ¬ (Utf8.OnBoundary source label.start ∧ Utf8.OnBoundary source label.stop)) :
    ∃ fault, add source.toUTF8 state (label, 0) = .error fault := by
  have token := Utf8.decodeRange_eq_ok_iff source _ _ ordered
  have lead := Utf8.decodeRange_eq_ok_iff source _ _ after
  cases readToken : Utf8.decodeRange source.toUTF8 label.start label.stop with
  | error fault =>
      rw [String.toUTF8_eq_toByteArray] at readToken
      exact ⟨fault, by simp [add, readToken, bind, Except.bind]⟩
  | ok text =>
      cases readLead : Utf8.decodeRange source.toUTF8 state.reached label.start with
      | error fault =>
          rw [String.toUTF8_eq_toByteArray] at readToken readLead
          exact ⟨fault, by simp [add, readToken, readLead, bind, Except.bind]⟩
      | ok before =>
          -- Both ranges can be read, so the boundary reached carries over to both ends of the leaf.
          have start : Utf8.OnBoundary source label.start := by
            rcases lead.mp ⟨before, readLead⟩ with same | ⟨_, start⟩
            · have reached := faithful.boundary
              unfold Utf8.OnBoundary at reached ⊢
              rwa [same] at reached
            · exact start
          have stop : Utf8.OnBoundary source label.stop := by
            rcases token.mp ⟨text, readToken⟩ with same | ⟨_, stop⟩
            · unfold Utf8.OnBoundary at start ⊢
              rwa [same] at start
            · exact stop
          exact absurd ⟨start, stop⟩ split

theorem foldlM_add (rows : List (ParseLabel × Nat)) (state : Hydration)
    (faithful : Faithful source state) (ordered : LeavesOrdered (leafRows rows))
    (after : ∀ leaf ∈ leafRows rows, state.reached ≤ leaf.start)
    (boundary : ∀ leaf ∈ leafRows rows,
      Utf8.OnBoundary source leaf.start ∧ Utf8.OnBoundary source leaf.stop) :
    ∃ last, rows.foldlM (add source.toUTF8) state = .ok last ∧ Faithful source last := by
  induction rows generalizing state with
  | nil => exact ⟨state, rfl, faithful⟩
  | cons row rest ih =>
      obtain ⟨label, count⟩ := row
      by_cases leaf : count = 0
      · subst leaf
        rw [leafRows_cons_leaf] at ordered after boundary
        obtain ⟨each, pairs⟩ := ordered
        rw [List.pairwise_cons] at pairs
        obtain ⟨next, added, kept, reached⟩ := add_leaf faithful label (after label (by simp))
          (each label (by simp)) (boundary label (by simp)).1 (boundary label (by simp)).2
        obtain ⟨last, rest, final⟩ := ih next kept
          ⟨fun other present => each other (by simp [present]), pairs.2⟩
          (fun other present => by rw [reached]; exact pairs.1 other present)
          fun other present => boundary other (by simp [present])
        exact ⟨last, by rw [List.foldlM_cons, added]; exact rest, final⟩
      · rw [leafRows_cons_inner label count leaf] at ordered after boundary
        obtain ⟨next, added, kept, reached⟩ := add_inner faithful label count leaf
        obtain ⟨last, rest, final⟩ := ih next kept ordered
          (fun other present => by rw [reached]; exact after other present) boundary
        exact ⟨last, by rw [List.foldlM_cons, added]; exact rest, final⟩

theorem foldlM_add_fails (rows : List (ParseLabel × Nat)) (state : Hydration)
    (faithful : Faithful source state) (ordered : LeavesOrdered (leafRows rows))
    (after : ∀ leaf ∈ leafRows rows, state.reached ≤ leaf.start)
    (split : ∃ leaf ∈ leafRows rows,
      ¬ (Utf8.OnBoundary source leaf.start ∧ Utf8.OnBoundary source leaf.stop)) :
    ∃ fault, rows.foldlM (add source.toUTF8) state = .error fault := by
  induction rows generalizing state with
  | nil => simp [leafRows] at split
  | cons row rest ih =>
      obtain ⟨label, count⟩ := row
      by_cases leaf : count = 0
      · subst leaf
        rw [leafRows_cons_leaf] at ordered after split
        obtain ⟨each, pairs⟩ := ordered
        rw [List.pairwise_cons] at pairs
        have here := after label (by simp)
        have forward := each label (by simp)
        by_cases boundary :
            Utf8.OnBoundary source label.start ∧ Utf8.OnBoundary source label.stop
        · obtain ⟨next, added, kept, reached⟩ :=
            add_leaf faithful label here forward boundary.1 boundary.2
          obtain ⟨other, member, outside⟩ := split
          have later : other ∈ leafRows rest := by
            rcases List.mem_cons.mp member with rfl | later
            · exact absurd boundary outside
            · exact later
          obtain ⟨fault, failed⟩ := ih next kept
            ⟨fun other present => each other (by simp [present]), pairs.2⟩
            (fun other present => by rw [reached]; exact pairs.1 other present)
            ⟨other, later, outside⟩
          exact ⟨fault, by rw [List.foldlM_cons, added]; exact failed⟩
        · obtain ⟨fault, failed⟩ := add_leaf_fails faithful label here forward boundary
          exact ⟨fault, by rw [List.foldlM_cons, failed]; rfl⟩
      · rw [leafRows_cons_inner label count leaf] at ordered after split
        obtain ⟨next, added, kept, reached⟩ := add_inner faithful label count leaf
        obtain ⟨fault, failed⟩ := ih next kept ordered
          (fun other present => by rw [reached]; exact after other present) split
        exact ⟨fault, by rw [List.foldlM_cons, added]; exact failed⟩

end Hydration

theorem leafRows_rows (trees : List ParseTree) :
    leafRows (Tree.rowsFrom trees #[]).toList = Tree.endsAll trees := by
  rw [Tree.toList_rowsFrom]
  simpa using leafRows_preorderAll trees fun tree _ => leafRows_preorder tree

theorem text_root (label : Label) (children : List Node) (inner : label.token = none)
    (trail : String) :
    (Tree.node { label with trail } children).text =
      String.join (children.map Tree.text) ++ trail :=
  Tree.text_branch _ _ inner

theorem hydrate_prints (source : String) (tree : ParseTree)
    (ordered : LeavesOrdered (parsedLeaves tree))
    (boundary : ∀ leaf ∈ parsedLeaves tree,
      Utf8.OnBoundary source leaf.start ∧ Utf8.OnBoundary source leaf.stop) :
    ∃ node, hydrate source.toUTF8 tree = .ok node ∧ node.text = source := by
  obtain ⟨label, children⟩ := tree
  cases children with
  | nil =>
      refine ⟨.node { label.inner 0 with slot := none, trail := source } [], ?_, ?_⟩
      · have whole := Utf8.decode_toUTF8 source
        rw [String.toUTF8_eq_toByteArray] at whole
        simp [hydrate, whole, bind, Except.bind, pure, Except.pure]
      · exact (text_root { label.inner 0 with slot := none } [] rfl source).trans (by simp)
  | cons child rest =>
      rw [parsedLeaves, Tree.children_node, ← leafRows_rows] at ordered boundary
      obtain ⟨last, read, faithful⟩ := Hydration.foldlM_add _ _ (Hydration.faithful_start source)
        ordered (fun leaf _ => Nat.zero_le _) boundary
      obtain ⟨trail, remaining⟩ := Utf8.decodeRange_to_end source last.reached faithful.boundary
      refine ⟨.node { label.inner 0 with slot := none, trail } (Tree.forest last.rows.toList), ?_, ?_⟩
      · rw [String.toUTF8_eq_toByteArray] at read remaining
        rw [String.size_toByteArray] at remaining
        simp [hydrate, read, remaining, bind, Except.bind, pure, Except.pure]
      · rw [text_root { label.inner 0 with slot := none } _ rfl, join_text_forest _ faithful.sound,
          ← String.toByteArray_inj, String.toByteArray_append, ← String.toUTF8_eq_toByteArray,
          ← String.toUTF8_eq_toByteArray, faithful.printed, Utf8.toUTF8_decodeRange remaining,
          ByteArray.extract_append_extract, Nat.zero_min, ByteArray.extract_zero_max_size]
        rfl

theorem hydrate_fails (source : String) (tree : ParseTree)
    (ordered : LeavesOrdered (parsedLeaves tree))
    (split : ∃ leaf ∈ parsedLeaves tree,
      ¬ (Utf8.OnBoundary source leaf.start ∧ Utf8.OnBoundary source leaf.stop)) :
    ∃ fault, hydrate source.toUTF8 tree = .error fault := by
  obtain ⟨label, children⟩ := tree
  cases children with
  | nil => simp [parsedLeaves, Tree.endsAll] at split
  | cons child rest =>
      rw [parsedLeaves, Tree.children_node, ← leafRows_rows] at ordered split
      obtain ⟨fault, failed⟩ := Hydration.foldlM_add_fails _ _ (Hydration.faithful_start source)
        ordered (fun leaf _ => Nat.zero_le _) split
      rw [String.toUTF8_eq_toByteArray] at failed
      exact ⟨fault, by simp [hydrate, failed, bind, Except.bind]⟩

theorem text_of_readParse {source : String} {tree : ParseTree} {root : Node}
    (ordered : LeavesOrdered (parsedLeaves tree)) (read : readParse source tree = .ok root) :
    root.text = source := by
  have hydrated := hydrate_of_readParse read
  have boundary : ∀ leaf ∈ parsedLeaves tree,
      Utf8.OnBoundary source leaf.start ∧ Utf8.OnBoundary source leaf.stop := by
    intro leaf member
    apply Classical.byContradiction
    intro outside
    obtain ⟨fault, failed⟩ := hydrate_fails source tree ordered ⟨leaf, member, outside⟩
    rw [hydrated] at failed
    cases failed
  obtain ⟨node, same, printed⟩ := hydrate_prints source tree ordered boundary
  rw [hydrated] at same
  cases same
  exact printed

/-- An undamaged parse with ordered leaves is read as a tree that prints as the source, unless an end
of a leaf splits a character; exactly then the parse cannot be read. -/
theorem readParse_lossless (source : String) (tree : ParseTree)
    (undamaged : tree.label.hasError = false) (ordered : LeavesOrdered (parsedLeaves tree)) :
    ((∃ node, readParse source tree = .ok node ∧ node.text = source) ∨
      ∃ fault, readParse source tree = .error (.undecodable fault)) ∧
    ((∃ fault, readParse source tree = .error (.undecodable fault)) ↔
      ∃ leaf ∈ parsedLeaves tree,
        Utf8.Splits source leaf.start ∨ Utf8.Splits source leaf.stop) := by
  have reads : readParse source tree = (hydrate source.toUTF8 tree).mapError .undecodable := by
    simp [readParse, undamaged]
  rw [reads]
  by_cases split : ∃ leaf ∈ parsedLeaves tree,
      Utf8.Splits source leaf.start ∨ Utf8.Splits source leaf.stop
  · have outside := split
    simp only [Utf8.splits_or_iff] at outside
    obtain ⟨fault, failed⟩ := hydrate_fails source tree ordered outside
    rw [failed]
    exact ⟨.inr ⟨fault, rfl⟩, fun _ => split, fun _ => ⟨fault, rfl⟩⟩
  · have boundary : ∀ leaf ∈ parsedLeaves tree,
        Utf8.OnBoundary source leaf.start ∧ Utf8.OnBoundary source leaf.stop := by
      intro leaf member
      apply Classical.byContradiction
      intro outside
      exact split ⟨leaf, member, (Utf8.splits_or_iff source _ _).mpr outside⟩
    obtain ⟨node, read, printed⟩ := hydrate_prints source tree ordered boundary
    rw [read]
    refine ⟨.inl ⟨node, rfl, printed⟩, ?_, fun found => absurd found split⟩
    rintro ⟨fault, failed⟩
    cases failed

-- A leaf that ends within the second character, after a gap and an empty leaf.
theorem readParse_lossless_splitting :
    let leaf (start stop : Nat) : ParseTree :=
      .node ⟨"identifier", start, stop, none, false, false, false⟩ []
    let tree : ParseTree :=
      .node ⟨"program", 0, 9, none, false, false, false⟩ [leaf 1 1, .node ⟨"call", 7, 3, none,
        false, false, false⟩ [leaf 1 2]]
    tree.label.hasError = false ∧ LeavesOrdered (parsedLeaves tree) ∧
      ∃ fault, readParse " é" tree = .error (.undecodable fault) := by
  intro leaf tree
  have ordered : LeavesOrdered (parsedLeaves tree) := by
    simp [tree, leaf, parsedLeaves, LeavesOrdered, Tree.endsAll, Tree.ends]
  refine ⟨rfl, ordered, ?_⟩
  rw [(readParse_lossless " é" tree rfl ordered).2]
  refine ⟨⟨"identifier", 1, 2, none, false, false, false⟩, by
    simp [tree, leaf, parsedLeaves, Tree.endsAll, Tree.ends], .inr ⟨[' '], 'é', [], ?_⟩⟩
  decide

end ScriptTyping
