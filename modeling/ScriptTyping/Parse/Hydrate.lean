import ScriptTyping.Node.Basic
import ScriptTyping.Parse.Failure

set_option autoImplicit false

namespace ScriptTyping

structure Hydration where
  reached : Nat
  rows : Array (Label × Nat)

def ParseLabel.inner (label : ParseLabel) (number : Nat) : Label :=
  { kind := label.kind, slot := label.slot, token := none, lead := "", trail := ""
    origin := some number }

-- Adds one row of the parse tree; a row without children is a leaf. Rows are numbered from one, the
-- root is zero.
def Hydration.add (source : ByteArray) (state : Hydration) (row : ParseLabel × Nat) :
    Except Utf8.Fault Hydration := do
  let label := row.1
  let inner := label.inner (state.rows.size + 1)
  if row.2 = 0 then
    let token ← Utf8.decodeRange source label.start label.stop
    let lead ← Utf8.decodeRange source state.reached label.start
    let leaf := { inner with token := some token, lead }
    return ⟨max state.reached label.stop, state.rows.push (leaf, 0)⟩
  else
    return ⟨state.reached, state.rows.push (inner, row.2)⟩

def hydrate (source : ByteArray) (tree : ParseTree) : Except Utf8.Fault Node := do
  let root := { tree.label.inner 0 with slot := none }
  if tree.children.isEmpty then
    let trail ← Utf8.decode source
    return .node { root with trail } []
  else
    let state ← (Tree.rowsFrom tree.children #[]).toList.foldlM (Hydration.add source) ⟨0, #[]⟩
    let trail ← Utf8.decodeRange source state.reached source.size
    return .node { root with trail } (Tree.forest state.rows.toList)

inductive ParseError where
  | malformed (failure : ParseFailure)
  | undecodable (fault : Utf8.Fault)

def readParse (source : String) (tree : ParseTree) : Except ParseError Node :=
  let bytes := source.toUTF8
  if tree.label.hasError then .error (.malformed (describeDamage bytes tree))
  else (hydrate bytes tree).mapError .undecodable

theorem ok_of_bind {ε α β : Type} {first : Except ε α} {next : α → Except ε β} {result : β}
    (ran : first >>= next = .ok result) : ∃ middle, first = .ok middle ∧ next middle = .ok result := by
  cases first with
  | error fault => cases ran
  | ok middle => exact ⟨middle, rfl, ran⟩

theorem readParse_ne_malformed {source : String} {tree : ParseTree}
    (undamaged : tree.label.hasError = false) (failure : ParseFailure) :
    readParse source tree ≠ .error (.malformed failure) := by
  rw [readParse, if_neg (by simp [undamaged])]
  cases hydrate source.toUTF8 tree <;> exact fun same => nomatch same

theorem hydrate_of_readParse {source : String} {tree : ParseTree} {root : Node}
    (read : readParse source tree = .ok root) : hydrate source.toUTF8 tree = .ok root := by
  unfold readParse at read
  split at read
  next => cases read
  next =>
    dsimp only at read
    generalize hydrate source.toUTF8 tree = result at read ⊢
    cases result with
    | error fault => cases read
    | ok node =>
        cases read
        rfl

end ScriptTyping
