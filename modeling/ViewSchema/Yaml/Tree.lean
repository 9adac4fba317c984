import ViewSchema.Yaml.Token

/-!
# YAML trees

The tree that the tokens of a text describe: scalars, sequences and mappings with
their tags and anchors, and aliases in place of trees that stand elsewhere.

Main definitions:

- `Tree` and `Tree.ofTokens?`.
- `Tree.ofText?` reads the one document of a text; a text may hold none.
-/

namespace ViewSchema.Yaml

/-- What may precede a node. -/
structure Properties where
  anchor : Option String
  tag : Option String
deriving DecidableEq, Repr

namespace Properties

def none : Properties := ⟨Option.none, Option.none⟩

def isNone (p : Properties) : Bool := p.anchor.isNone && p.tag.isNone

end Properties

inductive Tree where
  | alias (name : String)
  | scalar (properties : Properties) (text : String) (plain : Bool)
  | sequence (properties : Properties) (items : List Tree)
  | mapping (properties : Properties) (entries : List (Tree × Tree))
deriving Repr

namespace Tree

/-- The scalar that stands where nothing was written. -/
def empty : Tree := .scalar .none "" true

/-- A scalar; the tag `!` says no more than that there is one. -/
def ofScalar (p : Properties) (text : String) (plain : Bool) : Tree :=
  if p.tag = some "!" then .scalar { p with tag := Option.none } text true
  else .scalar p text plain

/-- What the handles of tags stand for. -/
abbrev Handles := List (String × String)

/-- Handles that need no directive. -/
def standardHandles : Handles := [("!", "!"), ("!!", "tag:yaml.org,2002:")]

/-- The tag that a handle and a suffix stand for. -/
def resolveTag? (handles : Handles) (handle suffix : String) : Option String :=
  if handle.isEmpty then some suffix else (handles.lookup handle).map (· ++ suffix)

/-- Tag and anchor, in either order. -/
def properties? (handles : Handles) (tokens : List Token) :
    Option (Properties × List Token) :=
  match tokens with
  | .anchor name :: .tag handle suffix :: rest =>
    (resolveTag? handles handle suffix).map fun tag => (⟨some name, some tag⟩, rest)
  | .anchor name :: rest => some (⟨some name, none⟩, rest)
  | .tag handle suffix :: .anchor name :: rest =>
    (resolveTag? handles handle suffix).map fun tag => (⟨some name, some tag⟩, rest)
  | .tag handle suffix :: rest =>
    (resolveTag? handles handle suffix).map fun tag => (⟨none, some tag⟩, rest)
  | rest => some (.none, rest)

/-- Whether the next token is one of those given. -/
def next (tokens : List Token) (kinds : List Token) : Bool :=
  match tokens with
  | token :: _ => kinds.contains token
  | [] => false

mutual

/-- One node. Block collections are allowed where `block` says so, and items
without indentation of their own where `loose` says so. -/
def node? (handles : Handles) : Nat → Bool → Bool → List Token → Option (Tree × List Token)
  | 0, _, _, _ => none
  | fuel + 1, block, loose, tokens =>
    match tokens with
    | .alias name :: rest => some (.alias name, rest)
    | tokens => do
      let (p, tokens) ← properties? handles tokens
      match tokens with
      | .scalar text plain :: rest => some (ofScalar p text plain, rest)
      | .flowSequenceStart :: rest => do
        let (items, rest) ← flowItems? handles fuel true rest
        some (.sequence p items, rest)
      | .flowMappingStart :: rest => do
        let (entries, rest) ← flowEntries? handles fuel true rest
        some (.mapping p entries, rest)
      | .blockEntry :: _ =>
        if loose then do
          let (items, rest) ← looseItems? handles fuel tokens
          some (.sequence p items, rest)
        else if p.isNone then none
        else some (.scalar p "" true, tokens)
      | .blockSequenceStart :: rest =>
        if block then do
          let (items, rest) ← blockItems? handles fuel rest
          some (.sequence p items, rest)
        else if p.isNone then none
        else some (.scalar p "" true, tokens)
      | .blockMappingStart :: rest =>
        if block then do
          let (entries, rest) ← blockEntries? handles fuel rest
          some (.mapping p entries, rest)
        else if p.isNone then none
        else some (.scalar p "" true, tokens)
      | _ => if p.isNone then none else some (.scalar p "" true, tokens)

/-- A node, or nothing in front of one of the tokens given. -/
def nodeOrEmpty? (handles : Handles) :
    Nat → Bool → Bool → List Token → List Token → Option (Tree × List Token)
  | 0, _, _, _, _ => none
  | fuel + 1, block, loose, ends, tokens =>
    if next tokens ends then some (empty, tokens) else node? handles fuel block loose tokens

/-- The items of a block sequence, to its end. -/
def blockItems? (handles : Handles) : Nat → List Token → Option (List Tree × List Token)
  | 0, _ => none
  | fuel + 1, tokens =>
    match tokens with
    | .blockEntry :: rest => do
      let (item, rest) ← nodeOrEmpty? handles fuel true false [.blockEntry, .blockEnd] rest
      let (items, rest) ← blockItems? handles fuel rest
      some (item :: items, rest)
    | .blockEnd :: rest => some ([], rest)
    | _ => none

/-- The items of a sequence that stands in the column of its key. -/
def looseItems? (handles : Handles) : Nat → List Token → Option (List Tree × List Token)
  | 0, _ => none
  | fuel + 1, tokens =>
    match tokens with
    | .blockEntry :: rest => do
      let (item, rest) ← nodeOrEmpty? handles fuel true false
        [.blockEntry, .key, .value, .blockEnd] rest
      let (items, rest) ← looseItems? handles fuel rest
      some (item :: items, rest)
    | rest => some ([], rest)

/-- The entries of a block mapping, to its end. -/
def blockEntries? (handles : Handles) :
    Nat → List Token → Option (List (Tree × Tree) × List Token)
  | 0, _ => none
  | fuel + 1, tokens =>
    match tokens with
    | .key :: rest => do
      let ends := [Token.key, .value, .blockEnd]
      let (key, rest) ← nodeOrEmpty? handles fuel true true ends rest
      let (value, rest) ← match rest with
        | .value :: rest => nodeOrEmpty? handles fuel true true ends rest
        | rest => some (empty, rest)
      let (entries, rest) ← blockEntries? handles fuel rest
      some ((key, value) :: entries, rest)
    | .blockEnd :: rest => some ([], rest)
    | _ => none

/-- The items of a flow sequence, to its end. -/
def flowItems? (handles : Handles) :
    Nat → Bool → List Token → Option (List Tree × List Token)
  | 0, _, _ => none
  | fuel + 1, first, tokens =>
    match tokens with
    | .flowSequenceEnd :: rest => some ([], rest)
    | tokens => do
      let tokens ← match first, tokens with
        | true, tokens => some tokens
        | false, .flowEntry :: rest => some rest
        | false, _ => none
      match tokens with
      | .flowSequenceEnd :: rest => some ([], rest)
      | .key :: rest => do
        let (pair, rest) ← flowPair? handles fuel rest
        let (items, rest) ← flowItems? handles fuel false rest
        some (.mapping .none [pair] :: items, rest)
      | tokens => do
        let (item, rest) ← node? handles fuel false false tokens
        let (items, rest) ← flowItems? handles fuel false rest
        some (item :: items, rest)

/-- The only entry of a mapping that is an item of a flow sequence. A token that
stands where the key is missing is skipped. -/
def flowPair? (handles : Handles) :
    Nat → List Token → Option ((Tree × Tree) × List Token)
  | 0, _ => none
  | fuel + 1, tokens => do
    let (key, rest) ←
      if next tokens [.value, .flowEntry, .flowSequenceEnd] then some (empty, tokens.drop 1)
      else node? handles fuel false false tokens
    let (value, rest) ← match rest with
      | .value :: rest =>
        nodeOrEmpty? handles fuel false false [.flowEntry, .flowSequenceEnd] rest
      | rest => some (empty, rest)
    some ((key, value), rest)

/-- The entries of a flow mapping, to its end. -/
def flowEntries? (handles : Handles) :
    Nat → Bool → List Token → Option (List (Tree × Tree) × List Token)
  | 0, _, _ => none
  | fuel + 1, first, tokens =>
    match tokens with
    | .flowMappingEnd :: rest => some ([], rest)
    | tokens => do
      let tokens ← match first, tokens with
        | true, tokens => some tokens
        | false, .flowEntry :: rest => some rest
        | false, _ => none
      match tokens with
      | .flowMappingEnd :: rest => some ([], rest)
      | .key :: rest => do
        let (key, rest) ← nodeOrEmpty? handles fuel false false
          [.value, .flowEntry, .flowMappingEnd] rest
        let (value, rest) ← match rest with
          | .value :: rest =>
            nodeOrEmpty? handles fuel false false [.flowEntry, .flowMappingEnd] rest
          | rest => some (empty, rest)
        let (entries, rest) ← flowEntries? handles fuel false rest
        some ((key, value) :: entries, rest)
      | tokens => do
        let (key, rest) ← node? handles fuel false false tokens
        let (entries, rest) ← flowEntries? handles fuel false rest
        some ((key, empty) :: entries, rest)

end

/-! ## Documents -/

/-- Directives in front of a document: at most one version, which must be known,
and one for each handle. -/
def directives? (versionSeen : Bool) (handles : Handles) :
    List Token → Option (Handles × List Token)
  | .versionDirective major minor :: rest =>
    if versionSeen || major != 1 || (minor != 1 && minor != 2) then none
    else directives? true handles rest
  | .tagDirective handle lead :: rest =>
    if (handles.lookup handle).isSome then none
    else directives? versionSeen (handles ++ [(handle, lead)]) rest
  | rest => some (handles, rest)

/-- Whether a token opens or closes a document. -/
def isMarker : Token → Bool
  | .versionDirective _ _ => true
  | .tagDirective _ _ => true
  | .documentStart => true
  | .documentEnd => true
  | _ => false

/-- The root of a document, and what follows it. -/
def root? (tokens : List Token) : Option (Tree × List Token) :=
  let fuel := 4 * tokens.length + 4
  match tokens with
  | .documentEnd :: _ => none
  | first :: _ =>
    if isMarker first then do
      let (handles, rest) ← directives? false [] tokens
      match rest with
      | .documentStart :: rest =>
        if rest.isEmpty || rest.head?.any isMarker then some (empty, rest)
        else node? (handles ++ standardHandles) fuel true false rest
      | _ => none
    else node? standardHandles fuel true false tokens
  | [] => none

/-- The tree of the only document; no tokens describe none. -/
def ofTokens? (tokens : List Token) : Option (Option Tree) :=
  if tokens.isEmpty then some none
  else
    (root? tokens).bind fun (tree, rest) =>
      if rest.all (· == .documentEnd) then some (some tree) else none

def ofText? (text : String) : Option (Option Tree) := (Token.ofText? text).bind ofTokens?

end Tree

end ViewSchema.Yaml
