import ScriptTyping.Node.Basic

set_option autoImplicit false

namespace ScriptTyping

inductive WalkFault where
  -- An import or export names a source that prints as no text.
  | emptySource
  -- The block that should take new statements has no opening brace.
  | unopenedBlock
  | outOfSteps
deriving DecidableEq

-- What a handler or a walk leaves: the tree, the state, and what stopped it. The tree and the state
-- hold all changes made before the stop.
structure Outcome (σ : Type) where
  tree : Node
  state : σ
  fault : Option WalkFault

structure Handler (σ : Type) where
  kinds : List String
  -- Works on one node. The labels of its parent and of the parent's parent are given, as far as
  -- there are any.
  handle : List Label → Node → σ → Outcome σ

abbrev HandlerTable (σ : Type) := List (Handler σ)

namespace HandlerTable

variable {σ : Type}

def handlersFor (table : HandlerTable σ) (kind : String) : List (Handler σ) :=
  table.filter fun handler => handler.kinds.contains kind

def handledKinds (table : HandlerTable σ) : List String :=
  (table.flatMap fun handler => handler.kinds).eraseDups

end HandlerTable

def applyHandlers {σ : Type} (above : List Label) :
    List (Handler σ) → Node → σ → Outcome σ
  | [], tree, state => ⟨tree, state, none⟩
  | handler :: rest, tree, state =>
      let outcome := handler.handle above tree state
      match outcome.fault with
      | some _ => outcome
      | none => applyHandlers above rest outcome.tree outcome.state

structure Frame where
  label : Label
  visited : List Node
  pending : List Node

def Frame.attach (frame : Frame) (child : Node) : Node :=
  .node frame.label (frame.visited.reverse ++ child :: frame.pending)

-- The labels of the two nearest ancestors, the parent's first.
def nearest (frames : List Frame) : List Label := (frames.take 2).map (·.label)

def rebuild (frames : List Frame) (tree : Node) : Node :=
  frames.foldl (fun child frame => frame.attach child) tree

def locate? : List Nat → Node → List Frame → Option (Node × List Frame)
  | [], tree, frames => some (tree, frames)
  | position :: way, .node label children, frames =>
      match children[position]? with
      | none => none
      | some child =>
          let frame :=
            ⟨label, (children.take position).reverse, children.drop (position + 1)⟩
          locate? way child (frame :: frames)

inductive Focus where
  | arriving (tree : Node)
  | done (tree : Node)

def Focus.tree : Focus → Node
  | arriving tree => tree
  | done tree => tree

-- The loop over a stack of linked nodes, `Store.walk`, comes to the same with every list of rules; see
-- `Rule.linked_walk`.
def walkFrom {σ : Type} (table : HandlerTable σ) :
    Nat → Focus → List Frame → σ → Outcome σ
  | 0, focus, frames, state => ⟨rebuild frames focus.tree, state, some .outOfSteps⟩
  | steps + 1, .arriving tree, frames, state =>
      if tree.isLeaf then walkFrom table steps (.done tree) frames state
      else
        let outcome :=
          applyHandlers (nearest frames) (table.handlersFor tree.kind) tree state
        match outcome.fault with
        | some _ => { outcome with tree := rebuild frames outcome.tree }
        | none =>
            match outcome.tree with
            | .node label [] => walkFrom table steps (.done (.node label [])) frames outcome.state
            | .node label (child :: rest) =>
                walkFrom table steps (.arriving child) (⟨label, [], rest⟩ :: frames) outcome.state
  | _ + 1, .done tree, [], state => ⟨tree, state, none⟩
  | steps + 1, .done tree, frame :: frames, state =>
      match frame.pending with
      | [] => walkFrom table steps (.done (frame.attach tree)) frames state
      | child :: rest =>
          walkFrom table steps (.arriving child)
            (⟨frame.label, tree :: frame.visited, rest⟩ :: frames) state

def HandlerTable.callAt {σ : Type} (table : HandlerTable σ) (way : List Nat) (tree : Node)
    (state : σ) : Option (Outcome σ) :=
  (locate? way tree []).map fun (found, frames) =>
    let outcome := applyHandlers (nearest frames) table found state
    { outcome with tree := rebuild frames outcome.tree }

def HandlerTable.walk {σ : Type} (table : HandlerTable σ) (steps : Nat) (tree : Node)
    (state : σ) : Outcome σ :=
  walkFrom table steps (.arriving tree) [] state

end ScriptTyping
