import ChangeImpact.Report.Dot
import Mathlib.Data.List.Basic

/-!
# Graph descriptions are read back

A reader of the DOT language is given here, for the statements that descriptions are made of. It
first lexes the text, where a backslash in a quoted name stands for the character behind it, and
then reads one statement up to each semicolon. Read from the description of a graph, the statements
are those of its files and edges, whatever characters the paths hold.
-/

namespace ChangeImpact.Dot

/-! ### Lexing -/

/-- A token. A name in quotes is no word of the language. -/
inductive Token
  | word (text : String)
  | quoted (text : String)
  | mark (c : Char)
  | arrow
  deriving DecidableEq, Repr

/-- What is being lexed, with its characters so far, the last one first. -/
inductive Mode
  | between
  | word (read : List Char)
  | quoted (read : List Char)
  | escaped (read : List Char)
  | hyphen
  deriving DecidableEq, Repr

/-- The state of lexing: what is being lexed, and the complete tokens, the last one first. -/
structure Lexer where
  mode : Mode
  tokens : List Token
  deriving DecidableEq, Repr

namespace Lexer

/-- The characters of words that stand without quotes. -/
def isWordChar (c : Char) : Bool := c.isAlphanum || c = '_'

/-- The characters that are tokens. -/
def marks : List Char := ['\x7b', '\x7d', '[', ']', '=', ',', ';']

/-- A character between tokens is blank or starts one. -/
def start (tokens : List Token) (c : Char) : Option Lexer :=
  if c.isWhitespace then some ⟨.between, tokens⟩
  else if c = '"' then some ⟨.quoted [], tokens⟩
  else if c = '-' then some ⟨.hyphen, tokens⟩
  else if marks.contains c then some ⟨.between, .mark c :: tokens⟩
  else if isWordChar c then some ⟨.word [c], tokens⟩
  else none

/-- Lexes one character. -/
def step (s : Lexer) (c : Char) : Option Lexer :=
  match s.mode with
  | .between => start s.tokens c
  | .word read =>
    if isWordChar c then some ⟨.word (c :: read), s.tokens⟩
    else start (.word (String.ofList read.reverse) :: s.tokens) c
  | .quoted read =>
    if c = '"' then some ⟨.between, .quoted (String.ofList read.reverse) :: s.tokens⟩
    else if c = '\\' then some ⟨.escaped read, s.tokens⟩
    else some ⟨.quoted (c :: read), s.tokens⟩
  | .escaped read => some ⟨.quoted (c :: read), s.tokens⟩
  | .hyphen => if c = '>' then some ⟨.between, .arrow :: s.tokens⟩ else none

end Lexer

/-- The tokens of a text that does not end inside one. -/
def tokens? (text : String) : Option (List Token) :=
  match text.toList.foldlM Lexer.step ⟨.between, []⟩ with
  | some ⟨.between, tokens⟩ => some tokens.reverse
  | _ => none

/-! ### Reading statements -/

/-- A value that is given to a name. -/
structure Setting where
  name : String
  value : String
  deriving DecidableEq, Repr

/-- A statement of a description. -/
inductive Statement
  | graph (setting : Setting)
  | allNodes (settings : List Setting)
  | node (name : String) (settings : List Setting)
  | edge (source target : String) (settings : List Setting)
  deriving DecidableEq, Repr

/-- The text of a token that is a value. -/
def Token.value? : Token → Option String
  | .word text | .quoted text => some text
  | .mark _ | .arrow => none

/-- Settings with commas between them, up to the closing bracket. -/
def settingsInside? : List Token → Option (List Setting)
  | [.word name, .mark '=', value, .mark ']'] => value.value?.map ([⟨name, ·⟩])
  | .word name :: .mark '=' :: value :: .mark ',' :: rest => do
    return ⟨name, ← value.value?⟩ :: (← settingsInside? rest)
  | _ => none

/-- Settings in brackets. -/
def settings? : List Token → Option (List Setting)
  | .mark '[' :: rest => settingsInside? rest
  | _ => none

/-- The statement that some tokens make. -/
def statement? : List Token → Option Statement
  | [.word name, .mark '=', value] => value.value?.map fun text => .graph ⟨name, text⟩
  | .word "node" :: rest => (settings? rest).map .allNodes
  | .quoted source :: .arrow :: .quoted target :: rest => (settings? rest).map (.edge source target)
  | .quoted name :: rest => (settings? rest).map (.node name)
  | _ => none

/-- The state of reading: the tokens since the last semicolon and the statements before it, the last
ones first. -/
structure Reader where
  pending : List Token
  statements : List Statement
  deriving DecidableEq, Repr

/-- Reads one token; a semicolon ends a statement. -/
def Reader.step (s : Reader) : Token → Option Reader
  | .mark ';' => (statement? s.pending.reverse).map fun statement => ⟨[], statement :: s.statements⟩
  | token => some ⟨token :: s.pending, s.statements⟩

/-- The statements of a description, which stand in braces behind the name of the graph. -/
def statements? (text : String) : Option (List Statement) :=
  match tokens? text with
  | some (.word "digraph" :: .word _ :: .mark '\x7b' :: body) =>
    match body.foldlM Reader.step ⟨[], []⟩ with
    | some ⟨[.mark '\x7d'], statements⟩ => some statements.reverse
    | _ => none
  | _ => none

/-- The node of a statement, if it is one with a setting. -/
def Statement.nodeWith? (setting : Setting) : Statement → Option String
  | .node name settings => if setting ∈ settings then some name else none
  | _ => none

/-- The edge of a statement, if it is one of an import. -/
def Statement.edge? : Statement → Option ImpactEdge
  | .edge source target settings =>
    if ⟨"label", ImpactEdge.relation⟩ ∈ settings then some ⟨source, target⟩ else none
  | _ => none

/-- The color of changed files. -/
def changedFill : Setting := ⟨"fillcolor", "#ff6b6b"⟩

/-- The color of affected files. -/
def affectedFill : Setting := ⟨"fillcolor", "#ffd93d"⟩

/-- The graph that some statements are about. -/
def graphOf (statements : List Statement) : ImpactGraph where
  directlyChanged := statements.filterMap (Statement.nodeWith? changedFill)
  indirectlyAffected := statements.filterMap (Statement.nodeWith? affectedFill)
  edges := statements.filterMap Statement.edge?

/-- The graph that a description is about. -/
def impactGraph? (text : String) : Option ImpactGraph := (statements? text).map graphOf

/-! ### Machines that emit -/

section Emits

variable {σ α β : Type} {step : σ → α → Option σ} {between : List β → σ} {input more : List α}
  {output others : List β}

/-- Between two outputs, a machine takes in some input and adds some output, the last one first. -/
def Emits (step : σ → α → Option σ) (between : List β → σ) (input : List α) (output : List β) :
    Prop :=
  ∀ before, input.foldlM step (between before) = some (between (output.reverse ++ before))

/-- One input after the other emits one output after the other. -/
theorem Emits.append (hinput : Emits step between input output)
    (hmore : Emits step between more others) :
    Emits step between (input ++ more) (output ++ others) := by
  intro before
  rw [List.foldlM_append, hinput before]
  refine (hmore _).trans ?_
  rw [List.reverse_append, List.append_assoc]

end Emits

/-- A text that is lexed as some tokens. -/
abbrev IsLexed (text : List Char) (tokens : List Token) : Prop :=
  Emits Lexer.step (⟨.between, ·⟩) text tokens

/-- Tokens that are read as some statements. -/
abbrev IsRead (tokens : List Token) (statements : List Statement) : Prop :=
  Emits Reader.step (⟨[], ·⟩) tokens statements

/-- A text that is lexed and read as some statements. -/
def Describes (text : List Char) (statements : List Statement) : Prop :=
  ∃ tokens, IsLexed text tokens ∧ IsRead tokens statements

/-- Texts that are read one by one are read together. -/
theorem Describes.append {text more : List Char} {statements others : List Statement}
    (htext : Describes text statements) (hmore : Describes more others) :
    Describes (text ++ more) (statements ++ others) := by
  obtain ⟨tokens, hlexed, hread⟩ := htext
  obtain ⟨moreTokens, hmoreLexed, hmoreRead⟩ := hmore
  exact ⟨tokens ++ moreTokens, hlexed.append hmoreLexed, hread.append hmoreRead⟩

/-- Lines that each describe one thing describe all of them, in their order. -/
theorem describes_lines {ι : Type} {line : ι → String} {statement : ι → Statement}
    (hline : ∀ item, Describes ((line item).toList ++ ['\n']) [statement item]) (items : List ι) :
    Describes ((items.map line).flatMap (·.toList ++ ['\n'])) (items.map statement) := by
  induction items with
  | nil => exact ⟨[], fun _ => rfl, fun _ => rfl⟩
  | cons item items ih => exact (hline item).append ih

/-! ### Descriptions -/

/-- To double the backslashes first and mark the quotes after that comes to the same. The other way
round, the marks of the quotes would be doubled. -/
theorem escape_eq (text : List Char) :
    escape text =
      (text.flatMap fun c => if c = '\\' then ['\\', '\\'] else [c]).flatMap fun c =>
        if c = '"' then ['\\', '"'] else [c] := by
  rw [escape, List.flatMap_assoc]
  refine List.flatMap_congr fun c _ => ?_
  by_cases hbackslash : c = '\\'
  · subst hbackslash
    rfl
  · by_cases hquote : c = '"' <;> simp [hbackslash, hquote]

/-- The escaped characters of a path are lexed as the path, inside its quotes. -/
theorem foldlM_step_escape (path read : List Char) (before : List Token) :
    (escape path).foldlM Lexer.step ⟨.quoted read, before⟩ =
      some ⟨.quoted (path.reverse ++ read), before⟩ := by
  induction path generalizing read with
  | nil => rfl
  | cons c path ih =>
    have hfirst : (if c = '\\' || c = '"' then ['\\', c] else [c]).foldlM Lexer.step
        ⟨.quoted read, before⟩ = some ⟨.quoted (c :: read), before⟩ := by
      split_ifs with hc
      · rfl
      · simp only [Bool.or_eq_true, decide_eq_true_eq, not_or] at hc
        simp [Lexer.step, hc]
    rw [escape, List.flatMap_cons, List.foldlM_append, hfirst]
    refine (ih (c :: read)).trans ?_
    rw [List.reverse_cons, List.append_assoc, List.singleton_append]

/-- A path in quotes is one token. -/
theorem isLexed_quoted (path : String) : IsLexed (quoted path).toList [.quoted path] := by
  intro before
  have hopen : Lexer.step ⟨.between, before⟩ '"' = some ⟨.quoted [], before⟩ := rfl
  have hinside := foldlM_step_escape path.toList [] before
  have hclose : Lexer.step ⟨.quoted path.toList.reverse, before⟩ '"' =
      some ⟨.between, .quoted path :: before⟩ := by
    simp [Lexer.step]
  rw [List.append_nil] at hinside
  simp only [quoted, String.toList_ofList, List.cons_append, List.foldlM_cons, hopen,
    List.foldlM_append, hinside, hclose, List.foldlM_nil, Option.bind_eq_bind, Option.bind_some]
  rfl

/-- The spaces at the beginning of a line are no token. -/
theorem isLexed_indent : IsLexed "  ".toList [] := fun _ => rfl

/-- The end of a line is no token. -/
theorem isLexed_newline : IsLexed ['\n'] [] := fun _ => rfl

/-- The statement for a changed file. -/
def changedStatement (path : String) : Statement :=
  .node path [changedFill, ⟨"fontcolor", "white"⟩]

/-- The statement for an affected file. -/
def affectedStatement (path : String) : Statement := .node path [affectedFill]

/-- The statement for an edge. -/
def edgeStatement (e : ImpactEdge) : Statement :=
  .edge e.source e.target [⟨"label", ImpactEdge.relation⟩]

/-- The statements about the layout, which stand before all others. -/
def generalStatements : List Statement :=
  [.graph ⟨"rankdir", "LR"⟩, .allNodes [⟨"shape", "box"⟩, ⟨"style", "filled"⟩]]

/-- The statements for a graph. -/
def graphStatements (g : ImpactGraph) : List Statement :=
  generalStatements ++ g.directlyChanged.map changedStatement ++
    g.indirectlyAffected.map affectedStatement ++ g.edges.map edgeStatement

/-- A line with a path in quotes and settings describes a node. -/
theorem describes_node {text : String} {tokens : List Token} {settings : List Setting}
    (hlexed : IsLexed text.toList tokens)
    (hread : ∀ path, IsRead (.quoted path :: tokens) [.node path settings]) (path : String) :
    Describes (("  " ++ quoted path ++ text).toList ++ ['\n']) [.node path settings] := by
  rw [String.toList_append, String.toList_append]
  have hline := ((isLexed_indent.append (isLexed_quoted path)).append hlexed).append isLexed_newline
  rw [List.append_nil] at hline
  exact ⟨_, hline, hread path⟩

/-- The line for a changed file is its statement. -/
theorem describes_changedNode (path : String) :
    Describes ((changedNode path).toList ++ ['\n']) [changedStatement path] := by
  have hsettings : IsLexed " [fillcolor=\"#ff6b6b\", fontcolor=\"white\"];".toList
      [.mark '[', .word "fillcolor", .mark '=', .quoted "#ff6b6b", .mark ',', .word "fontcolor",
        .mark '=', .quoted "white", .mark ']', .mark ';'] := fun _ => rfl
  exact describes_node hsettings (fun _ _ => rfl) path

/-- The line for an affected file is its statement. -/
theorem describes_affectedNode (path : String) :
    Describes ((affectedNode path).toList ++ ['\n']) [affectedStatement path] := by
  have hsettings : IsLexed " [fillcolor=\"#ffd93d\"];".toList
      [.mark '[', .word "fillcolor", .mark '=', .quoted "#ffd93d", .mark ']', .mark ';'] :=
    fun _ => rfl
  exact describes_node hsettings (fun _ _ => rfl) path

/-- The line for an edge is its statement. -/
theorem describes_arrow (e : ImpactEdge) :
    Describes ((arrow e).toList ++ ['\n']) [edgeStatement e] := by
  have hsource := isLexed_indent.append (isLexed_quoted e.source)
  have harrow : IsLexed " -> ".toList [.arrow] := fun _ => rfl
  have hlabel : IsLexed " [label=".toList [.mark '[', .word "label", .mark '='] := fun _ => rfl
  have hclose : IsLexed "];".toList [.mark ']', .mark ';'] := fun _ => rfl
  simp only [Dot.arrow, String.toList_append]
  exact ⟨_, (((((hsource.append harrow).append (isLexed_quoted e.target)).append hlabel).append
    (isLexed_quoted ImpactEdge.relation)).append hclose).append isLexed_newline, fun _ => rfl⟩

/-- The lines of a description between its braces. -/
def bodyLines (g : ImpactGraph) : List String :=
  ["  rankdir=LR;", "  node [shape=box, style=filled];", ""] ++
    g.directlyChanged.map changedNode ++ g.indirectlyAffected.map affectedNode ++ [""] ++
    g.edges.map Dot.arrow

/-- The lines between the braces are read as the statements for the graph. -/
theorem describes_bodyLines (g : ImpactGraph) :
    Describes ((bodyLines g).flatMap (·.toList ++ ['\n'])) (graphStatements g) := by
  have hhead : Describes
      (["  rankdir=LR;", "  node [shape=box, style=filled];", ""].flatMap (·.toList ++ ['\n']))
      generalStatements :=
    ⟨[.word "rankdir", .mark '=', .word "LR", .mark ';', .word "node", .mark '[', .word "shape",
      .mark '=', .word "box", .mark ',', .word "style", .mark '=', .word "filled", .mark ']',
      .mark ';'], fun _ => rfl, fun _ => rfl⟩
  have hempty : Describes ([""].flatMap (·.toList ++ ['\n'])) [] := ⟨[], fun _ => rfl, fun _ => rfl⟩
  have hchanged := describes_lines describes_changedNode g.directlyChanged
  have haffected := describes_lines describes_affectedNode g.indirectlyAffected
  have harrows := describes_lines describes_arrow g.edges
  have hall := (((hhead.append hchanged).append haffected).append hempty).append harrows
  rw [List.append_nil] at hall
  simpa only [bodyLines, graphStatements, List.flatMap_append] using hall

/-- Of joined lines all but the last end in a newline. -/
theorem intercalate_concat (lines : List (List Char)) (last : List Char) :
    ['\n'].intercalate (lines ++ [last]) = lines.flatMap (· ++ ['\n']) ++ last := by
  induction lines with
  | nil => simp
  | cons line lines ih =>
    have hne : lines ++ [last] ≠ [] := by simp
    rw [List.cons_append, List.intercalate_cons_of_ne_nil hne, ih, List.flatMap_cons,
      List.append_assoc, List.append_assoc, List.append_assoc]

/-- A description has its lines between the name of the graph and a brace. -/
theorem toList_graph (g : ImpactGraph) :
    (graph g).toList =
      "digraph impact \x7b\n".toList ++
        ((bodyLines g).flatMap (·.toList ++ ['\n']) ++ ['\x7d']) := by
  have hlines : (graphLines g).map String.toList =
      ("digraph impact \x7b".toList :: (bodyLines g).map String.toList) ++ [['\x7d']] := by
    simp [graphLines, bodyLines]
  have hmark : "\n".toList = ['\n'] := rfl
  rw [graph, String.toList_intercalate, hlines, hmark, intercalate_concat, List.flatMap_cons,
    List.flatMap_map, List.append_assoc]
  rfl

/-- The description of a graph is read as its statements. -/
theorem statements?_graph (g : ImpactGraph) : statements? (graph g) = some (graphStatements g) := by
  obtain ⟨tokens, hlexed, hread⟩ := describes_bodyLines g
  have hhead : IsLexed "digraph impact \x7b\n".toList
      [.word "digraph", .word "impact", .mark '\x7b'] := fun _ => rfl
  have hend : IsLexed ['\x7d'] [.mark '\x7d'] := fun _ => rfl
  have htokens : tokens? (graph g) =
      some (.word "digraph" :: .word "impact" :: .mark '\x7b' :: (tokens ++ [.mark '\x7d'])) := by
    rw [tokens?, toList_graph, hhead.append (hlexed.append hend) []]
    simp
  have hbody : (tokens ++ [Token.mark '\x7d']).foldlM Reader.step ⟨[], []⟩ =
      some ⟨[.mark '\x7d'], (graphStatements g).reverse⟩ := by
    rw [List.foldlM_append, hread [], List.append_nil]
    rfl
  simp only [statements?, htokens, hbody, List.reverse_reverse]

/-- The statements for a graph are about that graph. -/
theorem graphOf_graphStatements (g : ImpactGraph) : graphOf (graphStatements g) = g := by
  have hchanged (path : String) : (changedStatement path).nodeWith? changedFill = some path ∧
      (changedStatement path).nodeWith? affectedFill = none ∧
      (changedStatement path).edge? = none := ⟨rfl, rfl, rfl⟩
  have haffected (path : String) : (affectedStatement path).nodeWith? changedFill = none ∧
      (affectedStatement path).nodeWith? affectedFill = some path ∧
      (affectedStatement path).edge? = none := ⟨rfl, rfl, rfl⟩
  have hedge (e : ImpactEdge) : (edgeStatement e).nodeWith? changedFill = none ∧
      (edgeStatement e).nodeWith? affectedFill = none ∧
      (edgeStatement e).edge? = some e := ⟨rfl, rfl, rfl⟩
  have hnodes (fill : Setting) : generalStatements.filterMap (Statement.nodeWith? fill) = [] := rfl
  have hedges : generalStatements.filterMap Statement.edge? = [] := rfl
  simp [graphOf, graphStatements, hnodes, hedges, hchanged, haffected, hedge]

/-- From the description of a graph, whatever characters its paths hold, exactly one statement is
read for each changed file, each affected file and each edge, in their order, and with them the
graph itself. -/
theorem read_graph (g : ImpactGraph) :
    statements? (graph g) = some (graphStatements g) ∧ impactGraph? (graph g) = some g := by
  refine ⟨statements?_graph g, ?_⟩
  rw [impactGraph?, statements?_graph, Option.map_some, graphOf_graphStatements]

/-- A path may end its own quotes, or so it looks. -/
example : (quoted "\" [\\").toList.foldlM Lexer.step ⟨.between, []⟩ =
    some ⟨.between, [.quoted "\" [\\"]⟩ := by
  decide +kernel

end ChangeImpact.Dot
