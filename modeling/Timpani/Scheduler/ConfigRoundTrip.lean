import Timpani.Scheduler.ConfigFile

/-!
# Writing and reading a node configuration

A configuration is written in the layout of the documentation: the names are indented by two spaces
and the five properties by four, the strings are quoted.  The parser reads back what was written,
whatever the strings contain between the quotes.

* `renderNodes` : the file of a configuration;
* `parseCpuList_cpuListText` : the lists of CPUs;
* `NodeParser.foldlM_render` : the lines of one node;
* `NodeConfigManager.parseNodeSection_render` : a configuration that was written is read back.
-/

namespace Timpani

/-! ### Writing a configuration -/

/-- The characters of the names and the keys. -/
def isWordChar (b : UInt8) : Bool :=
  (97 ≤ b && b ≤ 122) || (65 ≤ b && b ≤ 90) || isDigit b || b = 95 || b = 45

/-- A name or a key. -/
def IsWord (w : Text) : Prop := w ≠ [] ∧ w.all isWordChar = true

instance : DecidablePred IsWord := fun _ => inferInstanceAs (Decidable (_ ∧ _))

def quoted (s : Text) : Text := 34 :: (s ++ [34])

/-- A list of CPUs in brackets. -/
def cpuListText : List ℤ → Text
  | [] => text "[]"
  | cpu :: cpus => 91 :: (intText cpu ++ cpus.flatMap (fun cpu => text ", " ++ intText cpu) ++ [93])

def headerLine (name : Text) : Text := text "  " ++ (name ++ [58])

def propertyLine (key value : Text) : Text := text "    " ++ (key ++ 58 :: 32 :: value)

/-- The properties of a node, with their values. -/
def NodeConfig.properties (config : NodeConfig) : List (Text × Text) :=
  [(text "available_cpus", cpuListText config.availableCpus),
    (text "max_memory_mb", intText config.maxMemoryMb),
    (text "architecture", quoted config.architecture),
    (text "location", quoted config.location),
    (text "description", quoted config.description)]

/-- The lines of a node. -/
def NodeConfig.render (config : NodeConfig) (name : Text) : List Text :=
  headerLine name :: config.properties.map fun property => propertyLine property.1 property.2

/-- The file of a configuration. -/
def renderNodes (nodes : Std.ExtTreeMap Text NodeConfig) : Text :=
  (text "nodes:" :: nodes.toList.flatMap fun node => node.2.render node.1).flatMap (· ++ [10])

/-- The configurations that can be written. -/
structure NodeConfig.Renderable (config : NodeConfig) (name : Text) : Prop where
  word : IsWord name
  ne_nodes : name ≠ text "nodes"
  name_eq : config.name = name
  cpus : ∀ cpu ∈ config.availableCpus, IsInt cpu
  memory : IsInt config.maxMemoryMb
  architecture : 10 ∉ config.architecture
  location : 10 ∉ config.location
  description : 10 ∉ config.description

/-! ### Reading it back -/

section Words

variable {w tail value : Text} {b : UInt8}

theorem IsWord.notMem (hw : IsWord w) (h : b ∈ [9, 10, 32, 35, 58]) : b ∉ w := by
  have hall : [9, 10, 32, 35, 58].all (fun b => !isWordChar b) = true := by decide
  intro hmem
  have hword := List.all_eq_true.1 hw.2 b hmem
  have hnot := List.all_eq_true.1 hall b h
  simp [hword] at hnot

theorem subset_lineBlanks {indent : Text}
    (h : indent.all (fun b => decide (b ∈ lineBlanks)) = true) : ∀ b ∈ indent, b ∈ lineBlanks :=
  fun b hb => of_decide_eq_true (List.all_eq_true.1 h b hb)

theorem mem_lineBlanks : b ∈ lineBlanks ↔ b = 32 ∨ b = 9 := by
  have hblanks : lineBlanks = [32, 9] := by decide
  simp [hblanks]

theorem lineKey_append (hw : IsWord w) (tail : Text) : lineKey (w ++ 58 :: tail) = w := by
  have hcolon : ∀ b ∈ w, decide (b ≠ 58) = true := fun b hb =>
    decide_eq_true fun h => hw.notMem (by simp) (h ▸ hb)
  rw [lineKey, List.takeWhile_append_of_pos hcolon, List.takeWhile_cons_of_neg (by simp),
    List.append_nil]

theorem lineValue_append (hw : IsWord w) :
    lineValue (w ++ 58 :: tail) = trim lineBlanks tail := by
  have hcolon : ∀ b ∈ w, decide (b ≠ 58) = true := fun b hb =>
    decide_eq_true fun h => hw.notMem (by simp) (h ▸ hb)
  rw [lineValue, List.dropWhile_append_of_pos hcolon, List.dropWhile_cons_of_neg (by simp),
    List.drop_one, List.tail_cons]

theorem trim_word (hw : IsWord w)
    (hlast : ∀ b, (w ++ tail).getLast? = some b → b ∉ lineBlanks) {indent : Text}
    (hindent : ∀ b ∈ indent, b ∈ lineBlanks) :
    trim lineBlanks (indent ++ (w ++ tail)) = w ++ tail := by
  rw [trim_append hindent]
  refine trim_eq_self (fun b hb => ?_) hlast
  obtain ⟨a, w', rfl⟩ := List.exists_cons_of_ne_nil hw.1
  obtain rfl : a = b := by simpa using hb
  intro hblank
  obtain rfl | rfl := mem_lineBlanks.1 hblank
  · exact hw.notMem (by simp) List.mem_cons_self
  · exact hw.notMem (by simp) List.mem_cons_self

theorem isContent_of_trim {line : Text} (hw : IsWord w) (hne : w ≠ text "nodes")
    (h : trim lineBlanks line = w ++ 58 :: tail) : IsContent line := by
  unfold IsContent IsSection
  rw [h]
  refine ⟨by simp, fun hcomment => ?_, fun hsection => hne ?_⟩
  · obtain ⟨a, w', rfl⟩ := List.exists_cons_of_ne_nil hw.1
    obtain rfl : a = 35 := by simpa using hcomment
    exact hw.notMem (by simp) List.mem_cons_self
  · have hkey := lineKey_append hw tail
    rw [hsection] at hkey
    exact hkey.symm.trans (by decide)

theorem trim_headerLine (hw : IsWord w) : trim lineBlanks (headerLine w) = w ++ [58] :=
  trim_word hw (by simp [mem_lineBlanks]) (subset_lineBlanks (by decide))

theorem isHeader_headerLine (hw : IsWord w) (hne : w ≠ text "nodes") : IsHeader (headerLine w) := by
  have htrim := trim_headerLine hw
  refine ⟨isContent_of_trim hw hne htrim, by simp [htrim], List.prefix_append _ _, ?_⟩
  rintro ⟨rest, hrest⟩
  obtain ⟨a, w', rfl⟩ := List.exists_cons_of_ne_nil hw.1
  have htwo : text "    " = text "  " ++ [32, 32] := by decide
  rw [headerLine, htwo, List.append_assoc] at hrest
  have ha : 32 = a := (List.cons.inj (List.append_cancel_left hrest)).1
  exact hw.notMem (b := a) (by simp [← ha]) List.mem_cons_self

/-- A value that is not trimmed. -/
structure Tidy (value : Text) : Prop where
  ne_nil : value ≠ []
  head : ∀ b, value.head? = some b → b ∉ lineBlanks
  last : ∀ b, value.getLast? = some b → b ∉ lineBlanks

theorem trim_propertyLine (hw : IsWord w) (hvalue : Tidy value) :
    trim lineBlanks (propertyLine w value) = w ++ 58 :: 32 :: value := by
  refine trim_word hw (fun b hb => hvalue.last b ?_) (subset_lineBlanks (by decide))
  have hsplit : w ++ 58 :: 32 :: value = (w ++ [58, 32]) ++ value := by simp
  rwa [hsplit, List.getLast?_append_of_ne_nil _ hvalue.ne_nil] at hb

theorem isProperty_propertyLine (hw : IsWord w) (hne : w ≠ text "nodes") (hvalue : Tidy value) :
    IsProperty (propertyLine w value) := by
  have htrim := trim_propertyLine hw hvalue
  exact ⟨isContent_of_trim hw hne htrim, by simp [htrim], List.prefix_append _ _⟩

theorem NodeParser.processLine_propertyLine {p : NodeParser} (hp : p.inNodesSection = true)
    (hdefinition : p.inNodeDefinition = true) (hw : IsWord w) (hne : w ≠ text "nodes")
    (hvalue : Tidy value) {config : NodeConfig}
    (hset : p.currentConfig.setProperty w (unquoted value) = .ok config) :
    p.processLine (propertyLine w value) = .ok { p with currentConfig := config } := by
  have htrim : trim lineBlanks (32 :: value) = value :=
    (trim_append (l := [32]) (subset_lineBlanks (by decide))).trans
      (trim_eq_self hvalue.head hvalue.last)
  rw [processLine_of_isProperty hp hdefinition (isProperty_propertyLine hw hne hvalue),
    trim_propertyLine hw hvalue, lineValue_append hw, lineKey_append hw, htrim,
    unquote_eq hvalue.ne_nil]
  change (p.currentConfig.setProperty w (unquoted value) >>= _) = _
  rw [hset]
  rfl

end Words

section RoundTrip

variable {s value : Text} {n : ℤ} {cpus : List ℤ}

@[simp] theorem inner_cons_append (a b : UInt8) (s : Text) : inner (a :: (s ++ [b])) = s := by
  simp [inner]

theorem getLast?_cons_append (a b : UInt8) (s : Text) : (a :: (s ++ [b])).getLast? = some b := by
  rw [← List.cons_append, List.getLast?_concat]

theorem tidy_cons_append {a b : UInt8} (ha : a ∉ lineBlanks) (hb : b ∉ lineBlanks) (s : Text) :
    Tidy (a :: (s ++ [b])) := by
  refine ⟨List.cons_ne_nil _ _, fun x hx => ?_, fun x hx => ?_⟩
  · obtain rfl : a = x := by simpa using hx
    exact ha
  · rw [getLast?_cons_append] at hx
    exact Option.some.inj hx ▸ hb

theorem tidy_quoted (s : Text) : Tidy (quoted s) := tidy_cons_append (by decide) (by decide) s

theorem unquoted_quoted (s : Text) : unquoted (quoted s) = s := by
  rw [unquoted, if_pos (.inl ⟨rfl, getLast?_cons_append _ _ _⟩), quoted, inner_cons_append]

theorem unquoted_eq_self (h : ∀ b, value.head? = some b → b ≠ 34 ∧ b ≠ 39) :
    unquoted value = value := by
  rw [unquoted, if_neg]
  rintro (⟨hhead, -⟩ | ⟨hhead, -⟩)
  · exact (h _ hhead).1 rfl
  · exact (h _ hhead).2 rfl

theorem notMem_intText {b : UInt8} (h : b ∈ [9, 10, 32, 34, 39, 44]) : b ∉ intText n := by
  have hall : [9, 10, 32, 34, 39, 44].all (fun b => decide (¬ (b = 45 ∨ isDigit b = true))) =
      true := by decide
  exact fun hmem => of_decide_eq_true (List.all_eq_true.1 hall b h) (of_mem_intText hmem)

theorem notMem_lineBlanks {b : UInt8} (h : b ∈ intText n) : b ∉ lineBlanks := by
  intro hblank
  obtain rfl | rfl := mem_lineBlanks.1 hblank
  · exact notMem_intText (by simp) h
  · exact notMem_intText (by simp) h

theorem tidy_intText (n : ℤ) : Tidy (intText n) :=
  ⟨intText_ne_nil, fun _ hb => notMem_lineBlanks (List.mem_of_mem_head? hb),
    fun _ hb => notMem_lineBlanks (List.mem_of_mem_getLast? hb)⟩

theorem unquoted_intText (n : ℤ) : unquoted (intText n) = intText n := by
  refine unquoted_eq_self fun b hb => ⟨?_, ?_⟩
  · rintro rfl
    exact notMem_intText (by simp) (List.mem_of_mem_head? hb)
  · rintro rfl
    exact notMem_intText (by simp) (List.mem_of_mem_head? hb)

theorem cpuOf_intText (hn : IsInt n) (indent : Text) (hindent : ∀ b ∈ indent, b ∈ lineBlanks) :
    cpuOf (indent ++ intText n) = some n := by
  have htrim : trim lineBlanks (indent ++ intText n) = intText n :=
    (trim_append hindent).trans (trim_eq_self (tidy_intText n).head (tidy_intText n).last)
  rw [cpuOf, htrim, if_neg intText_ne_nil, stoi_intText hn]
  rfl

theorem exists_cpuListText_eq (cpus : List ℤ) : ∃ s, cpuListText cpus = 91 :: (s ++ [93]) := by
  cases cpus with
  | nil => exact ⟨[], by decide⟩
  | cons cpu cpus => exact ⟨_, rfl⟩

theorem tidy_cpuListText (cpus : List ℤ) : Tidy (cpuListText cpus) := by
  obtain ⟨s, hs⟩ := exists_cpuListText_eq cpus
  rw [hs]
  exact tidy_cons_append (by decide) (by decide) s

theorem unquoted_cpuListText (cpus : List ℤ) : unquoted (cpuListText cpus) = cpuListText cpus := by
  obtain ⟨s, hs⟩ := exists_cpuListText_eq cpus
  rw [hs]
  exact unquoted_eq_self (by simp)

theorem getlines_inner_cpuListText (cpu : ℤ) (cpus : List ℤ) :
    getlines 44 (inner (cpuListText (cpu :: cpus))) =
      intText cpu :: cpus.map fun cpu => 32 :: intText cpu := by
  have hpieces : cpus.flatMap (fun cpu => text ", " ++ intText cpu) =
      (cpus.map fun cpu => 32 :: intText cpu).flatMap (44 :: ·) := by
    rw [List.flatMap_map]
    rfl
  rw [cpuListText, inner_cons_append, hpieces,
    getlines_append_flatMap (notMem_intText (by simp)) intText_ne_nil]
  intro piece hpiece
  obtain ⟨cpu, -, rfl⟩ := List.mem_map.1 hpiece
  refine ⟨fun hmem => ?_, List.cons_ne_nil _ _⟩
  obtain h | hmem := List.mem_cons.1 hmem
  · exact absurd h (by decide)
  · exact notMem_intText (by simp) hmem

/-- **A list of CPUs that was written is read back.** -/
theorem parseCpuList_cpuListText (hcpus : ∀ cpu ∈ cpus, IsInt cpu) :
    parseCpuList (cpuListText cpus) = .ok cpus := by
  have hbrackets : (cpuListText cpus).head? = some 91 ∧ (cpuListText cpus).getLast? = some 93 := by
    obtain ⟨s, hs⟩ := exists_cpuListText_eq cpus
    rw [hs]
    exact ⟨rfl, getLast?_cons_append _ _ _⟩
  rw [parseCpuList_eq (tidy_cpuListText cpus).ne_nil, if_pos hbrackets]
  cases cpus with
  | nil => rfl
  | cons cpu cpus =>
    have hrest : (cpus.map fun cpu => 32 :: intText cpu).filterMap cpuOf = cpus := by
      rw [List.filterMap_map]
      refine (List.filterMap_congr fun cpu hcpu => ?_).trans List.filterMap_some
      exact cpuOf_intText (hcpus cpu (List.mem_cons_of_mem _ hcpu)) [32]
        (subset_lineBlanks (by decide))
    have hfirst : cpuOf (intText cpu) = some cpu :=
      cpuOf_intText (hcpus cpu List.mem_cons_self) [] (by simp)
    rw [getlines_inner_cpuListText, List.filterMap_cons_some hfirst, hrest]

theorem NodeConfig.of_mem_properties {config : NodeConfig} {property : Text × Text}
    (h : property ∈ config.properties) :
    IsWord property.1 ∧ property.1 ≠ text "nodes" ∧ Tidy property.2 := by
  have hkeys : ∀ key ∈ [text "available_cpus", text "max_memory_mb", text "architecture",
      text "location", text "description"], IsWord key ∧ key ≠ text "nodes" := by
    decide
  have hkey : property.1 ∈ config.properties.map Prod.fst := List.mem_map_of_mem h
  refine ⟨(hkeys _ hkey).1, (hkeys _ hkey).2, ?_⟩
  simp only [properties, List.mem_cons, List.not_mem_nil, or_false] at h
  obtain rfl | rfl | rfl | rfl | rfl := h
  · exact tidy_cpuListText _
  · exact tidy_intText _
  all_goals exact tidy_quoted _

theorem NodeConfig.foldlM_setProperty {config : NodeConfig} {name : Text}
    (h : config.Renderable name) :
    config.properties.foldlM (fun c property => c.setProperty property.1 (unquoted property.2))
      NodeConfig.new = .ok { config with name := [] } := by
  have hcpus := parseCpuList_cpuListText h.cpus
  have hmemory := stoi_intText h.memory
  simp only [properties, List.foldlM_cons, List.foldlM_nil, unquoted_cpuListText,
    unquoted_intText, unquoted_quoted]
  simp only [setProperty, hcpus, hmemory]
  rfl

namespace NodeParser

variable {p : NodeParser} {config : NodeConfig} {name : Text}

theorem foldlM_propertyLine {properties : List (Text × Text)}
    (hp : p.inNodesSection = true) (hdefinition : p.inNodeDefinition = true)
    (hproperties : ∀ property ∈ properties,
      IsWord property.1 ∧ property.1 ≠ text "nodes" ∧ Tidy property.2)
    (hset : properties.foldlM (fun c property => c.setProperty property.1 (unquoted property.2))
      p.currentConfig = .ok config) :
    (properties.map fun property => propertyLine property.1 property.2).foldlM processLine p =
      .ok { p with currentConfig := config } := by
  induction properties generalizing p with
  | nil =>
    cases hset
    rfl
  | cons property properties ih =>
    obtain ⟨hword, hne, htidy⟩ := hproperties property List.mem_cons_self
    obtain ⟨config', hproperty, hrest⟩ := foldlM_cons_eq_ok.1 hset
    rw [List.map_cons]
    refine foldlM_cons_eq_ok.2
      ⟨_, processLine_propertyLine hp hdefinition hword hne htidy hproperty, ?_⟩
    exact ih hp hdefinition (fun q hq => hproperties q (List.mem_cons_of_mem _ hq)) hrest

/-- **The lines of a node that was written**: the parser has its configuration, to be saved under
its name. -/
theorem foldlM_render (hp : p.inNodesSection = true) (h : config.Renderable name) :
    (config.render name).foldlM processLine p =
      .ok { p.startNode name with currentConfig := { config with name := [] } } := by
  have hheader : p.processLine (headerLine name) = .ok (p.startNode name) := by
    rw [processLine_of_isHeader hp (isHeader_headerLine h.word h.ne_nodes),
      trim_headerLine h.word, lineKey_append h.word]
  refine foldlM_cons_eq_ok.2 ⟨_, hheader, ?_⟩
  refine foldlM_propertyLine ?_ rfl (fun _ => NodeConfig.of_mem_properties)
    (NodeConfig.foldlM_setProperty h)
  rw [startNode, saveNode_inNodesSection, hp]

theorem saveNode_nodes_of_render (h : config.Renderable name) :
    ({ p.startNode name with currentConfig := { config with name := [] } } :
      NodeParser).saveNode.nodes = p.saveNode.nodes.insert name config := by
  have hconfig : { config with name := name } = config := by rw [← h.name_eq]
  rw [saveNode, if_pos ⟨rfl, h.word.1⟩]
  exact congrArg (p.saveNode.nodes.insert name) hconfig

theorem exists_foldlM_flatMap_render {nodes : List (Text × NodeConfig)}
    (hp : p.inNodesSection = true) (h : ∀ node ∈ nodes, node.2.Renderable node.1) :
    ∃ p', (nodes.flatMap fun node => node.2.render node.1).foldlM processLine p = .ok p' ∧
      p'.saveNode.nodes = p.saveNode.nodes.insertMany nodes := by
  induction nodes generalizing p with
  | nil => exact ⟨p, rfl, by simp⟩
  | cons node nodes ih =>
    obtain ⟨name, config⟩ := node
    have hnode : config.Renderable name := h _ List.mem_cons_self
    obtain ⟨p', hrest, hnodes⟩ := ih (p :=
      { p.startNode name with currentConfig := { config with name := [] } })
      (by rw [startNode, saveNode_inNodesSection, hp])
      fun q hq => h q (List.mem_cons_of_mem _ hq)
    refine ⟨p', ?_, ?_⟩
    · rw [List.flatMap_cons, List.foldlM_append, foldlM_render hp hnode]
      exact hrest
    · rw [hnodes, saveNode_nodes_of_render hnode, Std.ExtTreeMap.insertMany_cons]

end NodeParser

theorem insertMany_toList (nodes : Std.ExtTreeMap Text NodeConfig) :
    (∅ : Std.ExtTreeMap Text NodeConfig).insertMany nodes.toList = nodes := by
  refine Std.ExtTreeMap.ext_getElem? fun name => ?_
  cases hname : nodes[name]? with
  | some config =>
    exact Std.ExtTreeMap.getElem?_insertMany_list_of_mem Std.ReflCmp.compare_self
      Std.ExtTreeMap.distinct_keys_toList
      (Std.ExtTreeMap.mem_toList_iff_getElem?_eq_some.2 hname)
  | none =>
    rw [Std.ExtTreeMap.getElem?_insertMany_list_of_contains_eq_false]
    · simp
    · rw [Std.ExtTreeMap.map_fst_toList_eq_keys]
      simpa using hname

theorem notMem_cpuListText (cpus : List ℤ) : 10 ∉ cpuListText cpus := by
  cases cpus with
  | nil => decide
  | cons cpu cpus =>
    have hsep : (10 : UInt8) ∉ text ", " := by decide
    simp [cpuListText, notMem_intText, hsep]

theorem notMem_quoted {s : Text} (hs : 10 ∉ s) : 10 ∉ quoted s := by simp [quoted, hs]

theorem NodeConfig.Renderable.notMem_value {config : NodeConfig} {name : Text}
    (h : config.Renderable name) {property : Text × Text} (hmem : property ∈ config.properties) :
    10 ∉ property.2 := by
  simp only [properties, List.mem_cons, List.not_mem_nil, or_false] at hmem
  obtain rfl | rfl | rfl | rfl | rfl := hmem
  · exact notMem_cpuListText _
  · exact notMem_intText (by simp)
  · exact notMem_quoted h.architecture
  · exact notMem_quoted h.location
  · exact notMem_quoted h.description

theorem NodeConfig.Renderable.notMem_line {config : NodeConfig} {name line : Text}
    (h : config.Renderable name) (hline : line ∈ config.render name) : 10 ∉ line := by
  have hindent : (10 : UInt8) ∉ text "  " ∧ (10 : UInt8) ∉ text "    " := by decide
  obtain rfl | hline := List.mem_cons.1 hline
  · have hname : 10 ∉ name := h.word.notMem (by simp)
    simp [headerLine, hindent, hname]
  · obtain ⟨property, hmem, rfl⟩ := List.mem_map.1 hline
    have hkey : 10 ∉ property.1 := (of_mem_properties hmem).1.notMem (by simp)
    simp [propertyLine, hindent, hkey, h.notMem_value hmem]

/-- **A configuration that was written is read back.** -/
theorem NodeConfigManager.parseNodeSection_render {nodes : Std.ExtTreeMap Text NodeConfig}
    (h : ∀ (name : Text) (config : NodeConfig), nodes[name]? = some config →
      config.Renderable name) (loaded : Bool) :
    (NodeConfigManager.mk ∅ loaded).parseNodeSection (renderNodes nodes) = .ok ⟨nodes, loaded⟩ := by
  have hnodes : ∀ node ∈ nodes.toList, node.2.Renderable node.1 := fun node hnode =>
    h node.1 node.2 (Std.ExtTreeMap.mem_toList_iff_getElem?_eq_some.1 hnode)
  have hlines : ∀ line ∈ text "nodes:" :: nodes.toList.flatMap fun node => node.2.render node.1,
      10 ∉ line := by
    intro line hline
    obtain rfl | hline := List.mem_cons.1 hline
    · decide
    · obtain ⟨node, hnode, hline⟩ := List.mem_flatMap.1 hline
      exact (hnodes node hnode).notMem_line hline
  have hsection : (NodeParser.new ∅).processLine (text "nodes:") =
      .ok { NodeParser.new ∅ with inNodesSection := true } :=
    NodeParser.processLine_of_isSection (show trim lineBlanks _ = _ by decide)
  obtain ⟨p, hp, hsaved⟩ := NodeParser.exists_foldlM_flatMap_render
    (p := { NodeParser.new ∅ with inNodesSection := true }) rfl hnodes
  rw [parseNodeSection, renderNodes, getlines_flatMap hlines,
    foldlM_cons_eq_ok.2 ⟨_, hsection, hp⟩]
  change Except.ok (NodeConfigManager.mk p.saveNode.nodes loaded) = _
  rw [hsaved]
  exact congrArg (fun nodes => Except.ok (NodeConfigManager.mk nodes loaded))
    (insertMany_toList nodes)

/-- Two nodes, with strings that look like other parts of the file. -/
def twoNodes : Std.ExtTreeMap Text NodeConfig :=
  ((∅ : Std.ExtTreeMap Text NodeConfig).insert (text "node_1")
      ⟨text "node_1", [0, -1, 2147483647], -5, text " a: b # c ", text "\"", []⟩).insert
    (text "n-2") ⟨text "n-2", [], 0, text "nodes:", text "'x'", text "\t"⟩

example : renderNodes twoNodes = text "nodes:
  n-2:
    available_cpus: []
    max_memory_mb: 0
    architecture: \"nodes:\"
    location: \"'x'\"
    description: \"\t\"
  node_1:
    available_cpus: [0, -1, 2147483647]
    max_memory_mb: -5
    architecture: \" a: b # c \"
    location: \"\"\"
    description: \"\"
" := by decide +kernel

theorem NodeConfigManager.parseNodeSection_twoNodes :
    (NodeConfigManager.mk ∅ false).parseNodeSection (renderNodes twoNodes) =
      .ok ⟨twoNodes, false⟩ := by
  refine parseNodeSection_render (fun name config h => ?_) false
  simp only [twoNodes, Std.ExtTreeMap.getElem?_insert, Std.LawfulEqOrd.compare_eq_iff_eq] at h
  split_ifs at h with hsecond hfirst
  · obtain rfl := Option.some.inj h
    subst hsecond
    constructor <;> decide
  · obtain rfl := Option.some.inj h
    subst hfirst
    constructor <;> decide
  · simp at h

end RoundTrip

end Timpani
