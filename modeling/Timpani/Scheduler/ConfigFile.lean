import Timpani.Cpp.Loop
import Timpani.Cpp.Parse
import Timpani.Scheduler.Types

/-!
# The node configuration file

The configuration of the nodes is read line by line.  A line that is indented by two spaces starts a
node, lines indented by four are its properties; a node is stored when the next one starts, and at
the end.  Values are trimmed and lose their quotes.

* `NodeConfigManager.parseNodeSection` : the parser;
* `NodeConfigManager.parseNodeSection_ok_iff` : the files it reads without an exception and without
  looking at the ends of an empty string.
-/

namespace Timpani

/-! ### Values -/

/-- What stops the parser: it takes the first or the last character of an empty string, or a number
parser throws. -/
inductive ParseFault where
  | emptyString
  | conversion (e : ConversionError)
  deriving DecidableEq, Repr

/-- `s.front()` -/
def front : Text → Except ParseFault UInt8
  | [] => .error .emptyString
  | b :: _ => .ok b

/-- `s.back()` -/
def back (s : Text) : Except ParseFault UInt8 :=
  match s.getLast? with
  | none => .error .emptyString
  | some b => .ok b

/-- `s.front() == first && s.back() == last` -/
def enclosed (first last : UInt8) (s : Text) : Except ParseFault Bool := do
  if (← front s) = first then return (← back s) = last
  else return false

/-- `s.substr(1, s.length() - 2)`, of a single character too: the length then wraps around. -/
def inner (s : Text) : Text := (s.drop 1).take (s.length - 2)

/-- The blanks that are trimmed. -/
def lineBlanks : Text := text " \t"

/-- `value` without the quotes around it. -/
def unquote (value : Text) : Except ParseFault Text := do
  if ← enclosed 34 34 value then return inner value
  else if ← enclosed 39 39 value then return inner value
  else return value

/-- The CPU of a token of a list, if it has one; what `std::stoi` throws is caught. -/
def cpuOf (token : Text) : Option ℤ :=
  if trim lineBlanks token = [] then none else (stoi (trim lineBlanks token)).toOption

/-- `ParseCpuList` -/
def parseCpuList (cpuStr : Text) : Except ParseFault (List ℤ) := do
  let cleanStr := if ← enclosed 91 93 cpuStr then inner cpuStr else cpuStr
  return (getlines 44 cleanStr).filterMap cpuOf

/-! ### Properties -/

/-- `NodeConfig()` -/
def NodeConfig.new : NodeConfig := ⟨[], [], 4096, [], [], []⟩

/-- The part of a line before the first colon. -/
def lineKey (line : Text) : Text := line.takeWhile (· ≠ 58)

/-- The part of a line after the first colon, trimmed. -/
def lineValue (line : Text) : Text := trim lineBlanks ((line.dropWhile (· ≠ 58)).drop 1)

/-- Set the property a key stands for. -/
def NodeConfig.setProperty (config : NodeConfig) (key value : Text) :
    Except ParseFault NodeConfig :=
  if key = text "available_cpus" then do
    let cpus ← parseCpuList value
    return { config with availableCpus := cpus }
  else if key = text "max_memory_mb" then
    match stoi value with
    | .ok n => .ok { config with maxMemoryMb := n }
    | .error e => .error (.conversion e)
  else if key = text "architecture" then .ok { config with architecture := value }
  else if key = text "location" then .ok { config with location := value }
  else if key = text "description" then .ok { config with description := value }
  else .ok config

/-- Read a line of a node, already trimmed. -/
def NodeConfig.parseProperty (config : NodeConfig) (line : Text) : Except ParseFault NodeConfig :=
  if 58 ∈ line then do
    let value ← unquote (lineValue line)
    config.setProperty (lineKey line) value
  else .ok config

/-! ### The parser -/

/-- The nodes and the local variables of `ParseNodeSection`. -/
structure NodeParser where
  nodes : Std.ExtTreeMap Text NodeConfig
  currentNode : Text
  currentConfig : NodeConfig
  inNodesSection : Bool
  inNodeDefinition : Bool

namespace NodeParser

def new (nodes : Std.ExtTreeMap Text NodeConfig) : NodeParser := ⟨nodes, [], .new, false, false⟩

/-- Save the current node, if there is one. -/
def saveNode (p : NodeParser) : NodeParser :=
  if p.inNodeDefinition = true ∧ p.currentNode ≠ [] then
    let config := { p.currentConfig with name := p.currentNode }
    { p with currentConfig := config, nodes := p.nodes.insert p.currentNode config }
  else p

/-- Start a node. -/
def startNode (p : NodeParser) (name : Text) : NodeParser :=
  { p.saveNode with currentNode := name, currentConfig := .new, inNodeDefinition := true }

/-- One iteration of the loop of `ParseNodeSection`. -/
def processLine (p : NodeParser) (originalLine : Text) : Except ParseFault NodeParser :=
  let line := trim lineBlanks originalLine
  if line = [] ∨ line.head? = some 35 then .ok p
  else if line = text "nodes:" then .ok { p with inNodesSection := true }
  else if p.inNodesSection = false then .ok p
  else if text "  " <+: originalLine ∧ 58 ∈ line ∧ ¬ text "    " <+: originalLine then
    .ok (p.startNode (lineKey line))
  else if p.inNodeDefinition = false then .ok p
  else if text "    " <+: originalLine then do
    let config ← p.currentConfig.parseProperty line
    return { p with currentConfig := config }
  else .ok p

end NodeParser

/-- `ParseNodeSection`; it always returns true. -/
def NodeConfigManager.parseNodeSection (m : NodeConfigManager) (yamlContent : Text) :
    Except ParseFault NodeConfigManager := do
  let p ← (getlines 10 yamlContent).foldlM NodeParser.processLine (.new m.nodes)
  return { m with nodes := p.saveNode.nodes }

/-! ### Values that can be read -/

section Values

variable {first last : UInt8} {s value : Text}

theorem enclosed_eq (hs : s ≠ []) : enclosed first last s =
    .ok (decide (s.head? = some first ∧ s.getLast? = some last)) := by
  have hlast := List.getLast?_eq_getLast_of_ne_nil hs
  cases s with
  | nil => exact absurd rfl hs
  | cons a s =>
    by_cases ha : a = first
    · subst ha
      simp [enclosed, front, back, hlast, bind, Except.bind, pure, Except.pure]
    · simp [enclosed, front, ha, bind, Except.bind, pure, Except.pure]

/-- `value` without the quotes around it, if it is not empty. -/
def unquoted (value : Text) : Text :=
  if (value.head? = some 34 ∧ value.getLast? = some 34) ∨
    (value.head? = some 39 ∧ value.getLast? = some 39) then inner value
  else value

theorem unquote_eq (hvalue : value ≠ []) : unquote value = .ok (unquoted value) := by
  unfold unquote unquoted
  rw [enclosed_eq hvalue, enclosed_eq hvalue]
  by_cases hdouble : value.head? = some 34 ∧ value.getLast? = some 34 <;>
    by_cases hsingle : value.head? = some 39 ∧ value.getLast? = some 39 <;>
    simp [hdouble, hsingle, bind, Except.bind, pure, Except.pure]

theorem unquote_nil : unquote [] = .error .emptyString := rfl

theorem parseCpuList_nil : parseCpuList [] = .error .emptyString := rfl

theorem parseCpuList_eq (hs : s ≠ []) : parseCpuList s = .ok ((getlines 44
    (if s.head? = some 91 ∧ s.getLast? = some 93 then inner s else s)).filterMap cpuOf) := by
  unfold parseCpuList
  rw [enclosed_eq hs]
  by_cases hbrackets : s.head? = some 91 ∧ s.getLast? = some 93 <;>
    simp [hbrackets, bind, Except.bind, pure, Except.pure]

theorem exists_setProperty_eq_ok_iff (config : NodeConfig) (key value : Text) :
    (∃ config', config.setProperty key value = .ok config') ↔
    (key = text "available_cpus" → value ≠ []) ∧
      (key = text "max_memory_mb" → ∃ n, BeginsWithInt value n) := by
  by_cases hcpus : key = text "available_cpus"
  · have hkey : key ≠ text "max_memory_mb" := hcpus ▸ by decide
    simp only [NodeConfig.setProperty, if_pos hcpus, bind_eq_ok]
    refine ⟨?_, fun h => ?_⟩
    · rintro ⟨config', cpus, hlist, -⟩
      refine ⟨fun _ hnil => ?_, fun h => absurd h hkey⟩
      rw [hnil, parseCpuList_nil] at hlist
      cases hlist
    · exact ⟨_, _, parseCpuList_eq (h.1 hcpus), rfl⟩
  · by_cases hmemory : key = text "max_memory_mb"
    · simp only [NodeConfig.setProperty, if_neg hcpus, if_pos hmemory]
      refine ⟨?_, fun h => ?_⟩
      · rintro ⟨config', h⟩
        refine ⟨fun h => absurd h hcpus, fun _ => ?_⟩
        cases hstoi : stoi value with
        | ok n => exact ⟨n, stoi_eq_ok_iff.1 hstoi⟩
        | error e =>
          rw [hstoi] at h
          cases h
      · obtain ⟨n, hn⟩ := h.2 hmemory
        exact ⟨_, by rw [stoi_eq_ok_iff.2 hn]⟩
    · simp only [hcpus, hmemory, false_implies, and_self, iff_true]
      unfold NodeConfig.setProperty
      rw [if_neg hcpus, if_neg hmemory]
      split_ifs
      all_goals exact ⟨_, rfl⟩

end Values

/-! ### Lines -/

/-- The line that starts the section of the nodes. -/
def IsSection (originalLine : Text) : Prop := trim lineBlanks originalLine = text "nodes:"

/-- The other lines that are not skipped. -/
def IsContent (originalLine : Text) : Prop :=
  trim lineBlanks originalLine ≠ [] ∧ (trim lineBlanks originalLine).head? ≠ some 35 ∧
    ¬ IsSection originalLine

/-- A line that starts a node. -/
def IsHeader (originalLine : Text) : Prop :=
  IsContent originalLine ∧ 58 ∈ trim lineBlanks originalLine ∧ text "  " <+: originalLine ∧
    ¬ text "    " <+: originalLine

/-- A line with a property of a node. -/
def IsProperty (originalLine : Text) : Prop :=
  IsContent originalLine ∧ 58 ∈ trim lineBlanks originalLine ∧ text "    " <+: originalLine

/-- The property has a value, a list of CPUs is not only a pair of quotes, and the memory begins
with a number. -/
def Legible (originalLine : Text) : Prop :=
  let line := trim lineBlanks originalLine
  lineValue line ≠ [] ∧ (lineKey line = text "available_cpus" → unquoted (lineValue line) ≠ []) ∧
    (lineKey line = text "max_memory_mb" → ∃ n, BeginsWithInt (unquoted (lineValue line)) n)

/-- Some node has been started. -/
def InDefinition (lines : List Text) : Prop :=
  ∃ before after, lines = before ++ after ∧ (∃ line ∈ before, IsSection line) ∧
    ∃ line ∈ after, IsHeader line

theorem InDefinition.isSection {lines : List Text} (h : InDefinition lines) :
    ∃ line ∈ lines, IsSection line := by
  obtain ⟨before, after, rfl, ⟨line, hline, hsection⟩, -⟩ := h
  exact ⟨line, List.mem_append_left _ hline, hsection⟩

namespace NodeParser

variable {p p' : NodeParser} {line : Text} {lines : List Text}

@[simp] theorem saveNode_inNodesSection : p.saveNode.inNodesSection = p.inNodesSection := by
  unfold saveNode
  split_ifs <;> rfl

theorem processLine_of_isSection (h : IsSection line) :
    p.processLine line = .ok { p with inNodesSection := true } := by
  have hline : trim lineBlanks line = text "nodes:" := h
  simp only [processLine, hline]
  rfl

theorem processLine_of_isHeader (hp : p.inNodesSection = true) (h : IsHeader line) :
    p.processLine line = .ok (p.startNode (lineKey (trim lineBlanks line))) := by
  obtain ⟨⟨hne, hcomment, hsection⟩, hcolon, htwo, hfour⟩ := h
  simp only [processLine]
  unfold IsSection at hsection
  rw [if_neg (not_or.2 ⟨hne, hcomment⟩), if_neg hsection, if_neg (by simp [hp]),
    if_pos ⟨htwo, hcolon, hfour⟩]

theorem processLine_of_isProperty (hp : p.inNodesSection = true)
    (hdefinition : p.inNodeDefinition = true) (h : IsProperty line) :
    p.processLine line = do
      let value ← unquote (lineValue (trim lineBlanks line))
      let config ← p.currentConfig.setProperty (lineKey (trim lineBlanks line)) value
      return { p with currentConfig := config } := by
  obtain ⟨⟨hne, hcomment, hsection⟩, hcolon, hfour⟩ := h
  simp only [processLine]
  unfold IsSection at hsection
  rw [if_neg (not_or.2 ⟨hne, hcomment⟩), if_neg hsection, if_neg (by simp [hp]),
    if_neg fun h => h.2.2 hfour, if_neg (by simp [hdefinition]), if_pos hfour,
    NodeConfig.parseProperty, if_pos hcolon, bind_assoc]

theorem processLine_of_not (hsection : ¬ IsSection line)
    (hheader : p.inNodesSection = true → ¬ IsHeader line)
    (hproperty : p.inNodesSection = true → p.inNodeDefinition = true → ¬ IsProperty line) :
    p.processLine line = .ok p := by
  simp only [processLine]
  split_ifs with hskip hsection' hp hline hdefinition hfour
  · rfl
  · exact absurd hsection' hsection
  · rfl
  · exact absurd ⟨⟨fun h => hskip (.inl h), fun h => hskip (.inr h), hsection⟩, hline.2.1, hline.1,
      hline.2.2⟩ (hheader (by simpa using hp))
  · rfl
  · have hcolon : 58 ∉ trim lineBlanks line := fun hcolon =>
      hproperty (by simpa using hp) (by simpa using hdefinition)
        ⟨⟨fun h => hskip (.inl h), fun h => hskip (.inr h), hsection⟩, hcolon, hfour⟩
    rw [NodeConfig.parseProperty, if_neg hcolon]
    rfl
  · rfl

theorem not_isHeader_of_isSection (h : IsSection line) : ¬ IsHeader line :=
  fun hheader => hheader.1.2.2 h

/-- **What a line does**: it starts the section, it starts a node, or it changes at most the current
configuration. -/
theorem processLine_cases (h : p.processLine line = .ok p') :
    (IsSection line ∧ p' = { p with inNodesSection := true }) ∨
      (p.inNodesSection = true ∧ IsHeader line ∧
        p' = p.startNode (lineKey (trim lineBlanks line))) ∨
      (¬ IsSection line ∧ ¬ (p.inNodesSection = true ∧ IsHeader line) ∧
        ∃ config, p' = { p with currentConfig := config }) := by
  by_cases hsection : IsSection line
  · rw [processLine_of_isSection hsection] at h
    exact .inl ⟨hsection, (Except.ok.inj h).symm⟩
  by_cases hheader : p.inNodesSection = true ∧ IsHeader line
  · rw [processLine_of_isHeader hheader.1 hheader.2] at h
    exact .inr (.inl ⟨hheader.1, hheader.2, (Except.ok.inj h).symm⟩)
  refine .inr (.inr ⟨hsection, hheader, ?_⟩)
  by_cases hproperty : p.inNodesSection = true ∧ p.inNodeDefinition = true ∧ IsProperty line
  · rw [processLine_of_isProperty hproperty.1 hproperty.2.1 hproperty.2.2] at h
    obtain ⟨value, -, h⟩ := bind_eq_ok.1 h
    obtain ⟨config, -, h⟩ := bind_eq_ok.1 h
    exact ⟨config, (Except.ok.inj h).symm⟩
  · rw [processLine_of_not hsection (fun hp hl => hheader ⟨hp, hl⟩)
      fun hp hd hl => hproperty ⟨hp, hd, hl⟩] at h
    exact ⟨p.currentConfig, (Except.ok.inj h).symm⟩

theorem flags_of_processLine (h : p.processLine line = .ok p') :
    (p'.inNodesSection = true ↔ p.inNodesSection = true ∨ IsSection line) ∧
      (p'.inNodeDefinition = true ↔
        p.inNodeDefinition = true ∨ p.inNodesSection = true ∧ IsHeader line) := by
  obtain ⟨hsection, rfl⟩ | ⟨hp, hheader, rfl⟩ | ⟨hsection, hheader, config, rfl⟩ :=
    processLine_cases h
  · simp [hsection, not_isHeader_of_isSection hsection]
  · simp [startNode, hp, hheader]
  · simp [hsection, hheader]

theorem inDefinition_append_singleton : InDefinition (lines ++ [line]) ↔
    InDefinition lines ∨ (∃ line ∈ lines, IsSection line) ∧ IsHeader line := by
  constructor
  · rintro ⟨before, after, hsplit, hsection, header, hmem, hheader⟩
    obtain rfl | ⟨after, last, rfl⟩ := List.eq_nil_or_concat' after
    · cases hmem
    rw [← List.append_assoc] at hsplit
    obtain ⟨rfl, hlast⟩ := List.append_inj' hsplit rfl
    obtain rfl : line = last := by simpa using hlast
    obtain hmem | hmem := List.mem_append.1 hmem
    · exact .inl ⟨before, after, rfl, hsection, header, hmem, hheader⟩
    · obtain rfl := List.mem_singleton.1 hmem
      obtain ⟨l, hl, hsection⟩ := hsection
      exact .inr ⟨⟨l, List.mem_append_left _ hl, hsection⟩, hheader⟩
  · rintro (⟨before, after, rfl, hsection, header, hmem, hheader⟩ | ⟨hsection, hheader⟩)
    · exact ⟨before, after ++ [line], List.append_assoc _ _ _, hsection, header,
        List.mem_append_left _ hmem, hheader⟩
    · exact ⟨lines, [line], rfl, hsection, line, List.mem_singleton_self _, hheader⟩

theorem flags_of_foldlM {nodes : Std.ExtTreeMap Text NodeConfig}
    (h : lines.foldlM processLine (.new nodes) = .ok p) :
    (p.inNodesSection = true ↔ ∃ line ∈ lines, IsSection line) ∧
      (p.inNodeDefinition = true ↔ InDefinition lines) := by
  refine foldlM_ok_induction (motive := fun lines p =>
    (p.inNodesSection = true ↔ ∃ line ∈ lines, IsSection line) ∧
      (p.inNodeDefinition = true ↔ InDefinition lines)) h ?_ ?_
  · refine ⟨by simp [new], by simp [new, InDefinition]⟩
  · rintro done line p p' - ⟨hsection, hdefinition⟩ hline
    obtain ⟨hsection', hdefinition'⟩ := flags_of_processLine hline
    rw [hsection', hdefinition', hsection, hdefinition, inDefinition_append_singleton]
    simp [or_and_right, exists_or]

theorem exists_processLine_eq_ok_iff
    (hp : p.inNodeDefinition = true → p.inNodesSection = true) :
    (∃ p', p.processLine line = .ok p') ↔
      (p.inNodeDefinition = true → IsProperty line → Legible line) := by
  by_cases hproperty : p.inNodeDefinition = true ∧ IsProperty line
  · obtain ⟨hdefinition, hproperty⟩ := hproperty
    rw [processLine_of_isProperty (hp hdefinition) hdefinition hproperty]
    simp only [hdefinition, hproperty, true_implies, Legible, bind_eq_ok]
    by_cases hvalue : lineValue (trim lineBlanks line) = []
    · simp [hvalue, unquote_nil]
    · rw [unquote_eq hvalue, ← exists_setProperty_eq_ok_iff p.currentConfig]
      simp [hvalue, pure, Except.pure]
  · have hok : ∃ p', p.processLine line = .ok p' := by
      by_cases hsection : IsSection line
      · exact ⟨_, processLine_of_isSection hsection⟩
      by_cases hheader : p.inNodesSection = true ∧ IsHeader line
      · exact ⟨_, processLine_of_isHeader hheader.1 hheader.2⟩
      exact ⟨_, processLine_of_not hsection (fun hp hl => hheader ⟨hp, hl⟩)
        fun _ hd hl => hproperty ⟨hd, hl⟩⟩
    exact ⟨fun _ hd hl => absurd ⟨hd, hl⟩ hproperty, fun _ => hok⟩

end NodeParser

/-- **The files that are read.**  The parser returns normally if and only if every property of a
node is legible. -/
theorem NodeConfigManager.parseNodeSection_ok_iff (m : NodeConfigManager) (yamlContent : Text) :
    (∃ m', m.parseNodeSection yamlContent = .ok m') ↔
      ∀ before line after, getlines 10 yamlContent = before ++ line :: after →
        InDefinition before → IsProperty line → Legible line := by
  have hloop : (∃ m', m.parseNodeSection yamlContent = .ok m') ↔
      ∃ p, (getlines 10 yamlContent).foldlM NodeParser.processLine (.new m.nodes) = .ok p := by
    simp only [parseNodeSection, bind_eq_ok]
    exact ⟨fun ⟨_, p, hp, _⟩ => ⟨p, hp⟩, fun ⟨p, hp⟩ => ⟨_, p, hp, rfl⟩⟩
  rw [hloop]
  constructor
  · rintro ⟨p, hp⟩ before line after hsplit hdefinition
    rw [hsplit, List.foldlM_append, bind_eq_ok] at hp
    obtain ⟨q, hq, hp⟩ := hp
    obtain ⟨q', hline, -⟩ := foldlM_cons_eq_ok.1 hp
    obtain ⟨hsection, hstarted⟩ := NodeParser.flags_of_foldlM hq
    exact (NodeParser.exists_processLine_eq_ok_iff fun h => hsection.2 (hstarted.1 h).isSection).1
      ⟨q', hline⟩ (hstarted.2 hdefinition)
  · intro h
    refine exists_foldlM_eq_ok_iff.2 fun before line after q hsplit hq => ?_
    obtain ⟨hsection, hstarted⟩ := NodeParser.flags_of_foldlM hq
    exact (NodeParser.exists_processLine_eq_ok_iff fun h => hsection.2 (hstarted.1 h).isSection).2
      fun hdefinition => h before line after hsplit (hstarted.1 hdefinition)

/-- **Not every file is read.**  The parser throws on a memory size that is no number, and it takes
the first character of a value that is missing, and of a list of CPUs that is a pair of quotes. -/
theorem NodeConfigManager.parseNodeSection_stops :
    (NodeConfigManager.mk ∅ false).parseNodeSection
        (text "nodes:\n  n:\n    max_memory_mb: abc\n") =
      .error (.conversion .invalidArgument) ∧
    (NodeConfigManager.mk ∅ false).parseNodeSection (text "nodes:\n  n:\n    architecture:\n") =
      .error .emptyString ∧
    (NodeConfigManager.mk ∅ false).parseNodeSection
        (text "nodes:\n  n:\n    available_cpus: \"\"\n") = .error .emptyString :=
  ⟨rfl, rfl, rfl⟩

/-! ### Loading a file -/

namespace NodeConfigManager

/-- `GetDefaultNodeConfig` -/
def getDefaultNodeConfig : NodeConfig where
  name := text "default_node"
  availableCpus := [0, 1, 2, 3]
  maxMemoryMb := 4096
  architecture := text "aarch64"
  location := text "default_location"
  description := text "Default node configuration"

/-- `LoadFromFile` with `ParseYamlFile`; there is no content if the file cannot be opened.  What was
loaded before is cleared. -/
def loadFromFile (content : Option Text) : Except ParseFault (NodeConfigManager × Bool) :=
  match content with
  | none => .ok (⟨∅, false⟩, false)
  | some yamlContent => do
    let m ← (NodeConfigManager.mk ∅ false).parseNodeSection yamlContent
    if m.nodes.isEmpty then
      return (⟨m.nodes.insert (text "default_node")
        { getDefaultNodeConfig with name := text "default_node" }, true⟩, true)
    else return (⟨m.nodes, true⟩, true)

end NodeConfigManager

end Timpani
