import TriggerGraph.Proofs.Stored.Context
import TriggerGraph.Stored.Definition

/-!
# Nodes and definitions that are written and read

A node is written with the fields of its kind beside its own, and read by the tag among them.  The
tag of a written kind selects that kind, whose fields give its settings back; only a constant
holds a value, so only a constant can be too deep for a budget.  A definition is read back when
its nodes are.

Main results:

- Theorem `NodeKind.ofTag?_written`: the fields of a written kind are read as that kind.
- Theorem `Node.fitsIn_of_ofTree?`: what is read fits in the budget.
- Theorem `Node.FitsIn.ofTree?_toTree`: a node that fits in a budget is read back from what it is
  written as.
- Theorem `GraphDefinition.FitsIn.ofTree?_toTree`: so is a definition.
-/

namespace TriggerGraph

open Json (Tree)
open Stored

/-! ## Change detection settings -/

namespace Detection

/-- The order of the fields does not matter. -/
theorem ofFields?_perm {isEmpty : Tree → Bool} {fields other : Fields} (h : fields.Perm other) :
    ofFields? isEmpty fields = ofFields? isEmpty other := by
  simp only [ofFields?, field?_perm h]

/-- Written settings are read as those settings, also behind a tag. -/
theorem ofFields?_written (isEmpty : Tree → Bool) (detection : Detection) (tag : Document) :
    ofFields? isEmpty ((("type", tag) :: detection.members).map written) = some detection := by
  have hmode : field? ["mode"] ((("type", tag) :: detection.members).map written) =
      some (some (.string (some detection.mode.wireName))) := rfl
  have hactive : field? ["active"] ((("type", tag) :: detection.members).map written) =
      some (some (.bool detection.active)) := rfl
  have henabled : field? ["timeWindowEnabled"] ((("type", tag) :: detection.members).map written) =
      some (some (.bool detection.windowEnabled)) := rfl
  have hmillis : field? ["timeWindowMillis"] ((("type", tag) :: detection.members).map written) =
      some (some (signed detection.windowMillis).toTree) := rfl
  have hname : DetectionMode.ofWireName? detection.mode.wireName = some detection.mode := by
    cases detection.mode <;> rfl
  have hword : signed? (signed detection.windowMillis).toTree = some detection.windowMillis :=
    signed?_ofInt64 detection.windowMillis
  simp only [ofFields?, hmode, hactive, henabled, hmillis, defaulted?, name?, bool?, hname, hword,
    bind, Option.bind_some]
  rfl

end Detection

/-! ## Kinds -/

namespace NodeKind

/-- The tag that a kind is written with. -/
def tag : NodeKind → String
  | .constant _ => "constant"
  | .provider _ => "provider"
  | .logic _ => "logic"
  | .schema _ => "schema"
  | .config _ => "config"
  | .final => "final"

/-- The kinds whose value, if they hold one, fits in a budget. -/
def FitsIn (kind : NodeKind) (budget : Nat) : Prop :=
  ∀ v, kind = .constant v → v.FitsIn budget

variable {kind : NodeKind} {budget : Nat} {fields other : Fields}

/-- The kind of a node does not depend on the order of its fields. -/
theorem ofTag?_perm (h : fields.Perm other) (tag : String) :
    ofTag? budget fields tag = ofTag? budget other tag := by
  simp only [ofTag?, field?_perm h, Detection.ofFields?_perm h]

/-- The fields of a written kind are read as that kind. -/
theorem ofTag?_written (h : kind.FitsIn budget) :
    ofTag? budget (kind.members.map written) kind.tag = some kind := by
  cases kind with
  | constant v =>
      have hfits := h v rfl
      have hread : required? (Document.ofTree? budget) (some v.toDocument.toTree) =
          some v.toDocument := hfits.toDocument.ofTree?_toTree_iff.2 ⟨rfl, hfits.toDocument⟩
      have hfield : field? ["value"] ((members (.constant v)).map written) =
          some (some v.toDocument.toTree) := rfl
      simp only [ofTag?, tag, ↓reduceIte, hfield, bind, Option.bind_some, hread,
        hfits.ofDocument_toDocument]
      rfl
  | provider path => rfl
  | logic operator =>
      have hname : required? (name? isNullOrEmpty) (some (.string (some operator.name))) =
          some operator.name := rfl
      have hfield : field? ["operator"] ((members (.logic operator)).map written) =
          some (some (.string (some operator.name))) := rfl
      simp only [ofTag?, tag, String.reduceEq, ↓reduceIte, hfield, bind, Option.bind_some, hname,
        Operator.ofName?_name]
      rfl
  | schema text => rfl
  | config detection =>
      have hread := Detection.ofFields?_written isNullOrEmpty detection (.string "config")
      simp only [ofTag?, tag, String.reduceEq, ↓reduceIte, members, hread, bind, Option.bind_some]
      rfl
  | final => rfl

/-- Everything a kind is written with fits where its value does. -/
theorem FitsIn.members (h : kind.FitsIn budget) :
    ∀ member ∈ kind.members, member.2.FitsIn budget := by
  have hleaf : ∀ text, (Document.string text).FitsIn budget :=
    fun text => ⟨trivial, trivial, Nat.zero_le budget⟩
  cases kind with
  | constant v => simp [NodeKind.members, hleaf, (h v rfl).toDocument]
  | provider path => simp [NodeKind.members, hleaf]
  | logic operator => simp [NodeKind.members, hleaf]
  | schema text => simp [NodeKind.members, hleaf]
  | config detection =>
      have hbool : ∀ b, (Document.bool b).FitsIn budget :=
        fun b => ⟨trivial, trivial, Nat.zero_le budget⟩
      have hsigned : (signed detection.windowMillis).FitsIn budget :=
        ⟨trivial, rfl, Nat.zero_le budget⟩
      simp [NodeKind.members, Detection.members, hleaf, hbool, hsigned]
  | final => simp [NodeKind.members, hleaf]

/-- A kind that is read fits in the budget. -/
theorem fitsIn_of_ofTag? {tag : String} (hfields : ∀ field ∈ fields, field.2.AllFinite)
    (h : ofTag? budget fields tag = some kind) : kind.FitsIn budget := by
  rintro v rfl
  unfold ofTag? at h
  split_ifs at h
  · rcases Option.bind_eq_some_iff.1 h with ⟨field, hfield, h⟩
    rcases Option.bind_eq_some_iff.1 h with ⟨d, hd, h⟩
    cases h
    rcases Option.bind_eq_some_iff.1 hd with ⟨t, rfl, hread⟩
    rcases mem_of_field? hfield with ⟨name, hmem⟩
    exact Value.fitsIn_ofDocument (Document.fitsIn_of_ofTree? (hfields _ hmem) hread)
  -- No other tag selects a constant.
  · rcases Option.bind_eq_some_iff.1 h with ⟨field, -, h⟩
    rcases Option.bind_eq_some_iff.1 h with ⟨path, -, h⟩
    cases h
  · rcases Option.bind_eq_some_iff.1 h with ⟨field, -, h⟩
    rcases Option.bind_eq_some_iff.1 h with ⟨name, -, h⟩
    rcases Option.bind_eq_some_iff.1 h with ⟨operator, -, h⟩
    cases h
  · rcases Option.bind_eq_some_iff.1 h with ⟨field, -, h⟩
    rcases Option.bind_eq_some_iff.1 h with ⟨text, -, h⟩
    cases h
  · rcases Option.bind_eq_some_iff.1 h with ⟨detection, -, h⟩
    cases h
  · cases h

end NodeKind

/-! ## Nodes -/

namespace Node

variable {node : Node} {budget : Nat}

/-- The nodes whose constant, if they hold one, fits in a budget. -/
def FitsIn (node : Node) (budget : Nat) : Prop := node.kind.FitsIn budget

/-- The members that a node is written with. -/
def members (node : Node) : List (String × Document) :=
  [("id", unsigned node.id), ("name", .string node.name),
    ("inputs", .array (node.inputs.map unsigned))] ++ node.kind.members

theorem nodup_members (node : Node) : (node.members.map (·.1)).Nodup := by
  rcases node with ⟨id, name, inputs, kind⟩
  cases kind <;> simp [members, NodeKind.members, Detection.members]

/-- The fields besides the common ones are those of the kind. -/
theorem filter_members (node : Node) :
    (node.members.map written).filter (fun field => !commonFields.contains field.1) =
      node.kind.members.map written := by
  rcases node with ⟨id, name, inputs, kind⟩
  cases kind <;> rfl

/-- Written inputs are read back. -/
theorem items?_unsigned (inputs : List NodeId) :
    items? (fun _ => unsigned?) (budget + 1) (Document.array (inputs.map unsigned)).toTree =
      some inputs := by
  rw [Document.toTree, Document.itemTrees_eq_map, List.map_map, items?]
  exact mapM_map_eq_some fun n _ => unsigned?_ofUInt64 n

/-- A node that fits in a budget is read back from what it is written as. -/
theorem FitsIn.ofTree?_toTree (h : node.FitsIn (budget + 1)) :
    ofTree? (budget + 2) node.toDocument.toTree = some node := by
  rcases exists_fields_of_ofMembers node.nodup_members with ⟨trees, fields, htree, hfields, hperm⟩
  have hcommon : field? ["id"] (node.members.map written) = some (some (unsigned node.id).toTree) ∧
      field? ["name"] (node.members.map written) = some (some (.string (some node.name))) ∧
      field? ["inputs"] (node.members.map written) =
        some (some (Document.array (node.inputs.map unsigned)).toTree) ∧
      field? ["type"] (node.kind.members.map written) =
        some (some (.string (some node.kind.tag))) := by
    rcases node with ⟨id, name, inputs, kind⟩
    cases kind <;> exact ⟨rfl, rfl, rfl, rfl⟩
  rcases hcommon with ⟨hid, hname, hinputs, htype⟩
  have hown := hperm.filter fun field => !commonFields.contains field.1
  rw [filter_members] at hown
  -- Every field of the kind is readable.
  have hreadable : ∃ documents, (fields.filter fun field => !commonFields.contains field.1).mapM
      (fun field => Document.ofTree? (budget + 1) field.2) = some documents := by
    refine exists_mapM fun field hfield => ?_
    rcases List.mem_map.1 (hown.mem_iff.1 hfield) with ⟨member, hmember, rfl⟩
    have hfits := NodeKind.FitsIn.members h member hmember
    exact ⟨member.2, hfits.ofTree?_toTree_iff.2 ⟨rfl, hfits⟩⟩
  rcases hreadable with ⟨documents, hdocuments⟩
  have hword : unsigned? (unsigned node.id).toTree = some node.id := unsigned?_ofUInt64 node.id
  have hkind := NodeKind.ofTag?_written h
  rw [show node.toDocument = Document.ofMembers node.members from rfl, htree, ofTree?, hfields]
  simp only [bind, Option.bind_some, hdocuments, field?_perm hperm, field?_perm hown, hid, hname,
    hinputs, htype, hword, defaulted?, string?, items?_unsigned, required?, NodeKind.tag?,
    NodeKind.ofTag?_perm hown, hkind]
  rfl

/-- A node that is read fits in the budget. -/
theorem fitsIn_of_ofTree? {t : Tree} (ht : t.AllFinite)
    (h : ofTree? (budget + 1) t = some node) : node.FitsIn budget := by
  unfold ofTree? at h
  split at h
  · rename_i members heq
    cases heq
    rcases Option.bind_eq_some_iff.1 h with ⟨fields, hfields, h⟩
    rcases Option.bind_eq_some_iff.1 h with ⟨documents, -, h⟩
    rcases Option.bind_eq_some_iff.1 h with ⟨idField, -, h⟩
    rcases Option.bind_eq_some_iff.1 h with ⟨id, -, h⟩
    rcases Option.bind_eq_some_iff.1 h with ⟨nameField, -, h⟩
    rcases Option.bind_eq_some_iff.1 h with ⟨name, -, h⟩
    rcases Option.bind_eq_some_iff.1 h with ⟨inputsField, -, h⟩
    rcases Option.bind_eq_some_iff.1 h with ⟨inputs, -, h⟩
    rcases Option.bind_eq_some_iff.1 h with ⟨tagField, -, h⟩
    rcases Option.bind_eq_some_iff.1 h with ⟨tag, -, h⟩
    rcases Option.bind_eq_some_iff.1 h with ⟨kind, hkind, h⟩
    cases h
    refine NodeKind.fitsIn_of_ofTag? (fun field hfield => ?_) hkind
    exact allFinite_of_mem_fields? ht hfields field (List.mem_of_mem_filter hfield)
  · cases h

theorem FitsIn.allFinite_toDocument (h : node.FitsIn budget) : node.toDocument.AllFinite := by
  have hinputs : Document.AllFiniteItems (node.inputs.map unsigned) := by
    refine Document.allFiniteItems_iff.2 fun d hd => ?_
    rcases List.mem_map.1 hd with ⟨n, -, rfl⟩
    rfl
  refine allFinite_ofMembers fun member hmem => ?_
  rcases List.mem_append.1 hmem with hmem | hmem
  · simp only [List.mem_cons, List.not_mem_nil, or_false] at hmem
    rcases hmem with rfl | rfl | rfl
    · rfl
    · trivial
    · exact hinputs
  · exact (NodeKind.FitsIn.members h member hmem).allFinite

end Node

/-! ## Definitions -/

namespace GraphDefinition

variable {definition : GraphDefinition} {budget : Nat}

/-- The definitions whose nodes fit in a budget. -/
def FitsIn (definition : GraphDefinition) (budget : Nat) : Prop :=
  ∀ node ∈ definition.nodes, node.FitsIn budget

/-- The members that a definition is written with. -/
def members (definition : GraphDefinition) : List (String × Document) :=
  [("name", .string definition.name),
    ("nodes", .array (definition.nodes.map Node.toDocument))]
    ++ match definition.nodeCount with
      | some count => [("nodeCount", unsigned count)]
      | none => []

theorem nodup_members (definition : GraphDefinition) :
    (definition.members.map (·.1)).Nodup := by
  rcases definition with ⟨name, count, nodes⟩
  cases count <;> simp [members]

/-- A written definition is read as its name, its count and its nodes. -/
theorem ofTree?_toTree_eq (definition : GraphDefinition) (budget : Nat) :
    ofTree? (budget + 1) definition.toDocument.toTree =
      ofParts? budget (some (.string (some definition.name)))
        (definition.nodeCount.map fun count => (unsigned count).toTree)
        (some (Document.array (definition.nodes.map Node.toDocument)).toTree) := by
  rcases exists_fields_of_ofMembers definition.nodup_members with
    ⟨trees, fields, htree, hfields, hperm⟩
  have hparts : field? ["name"] (definition.members.map written) =
        some (some (.string (some definition.name))) ∧
      field? ["nodeCount"] (definition.members.map written) =
        some (definition.nodeCount.map fun count => (unsigned count).toTree) ∧
      field? ["nodes"] (definition.members.map written) =
        some (some (Document.array (definition.nodes.map Node.toDocument)).toTree) := by
    rcases definition with ⟨name, count, nodes⟩
    cases count <;> exact ⟨rfl, rfl, rfl⟩
  rcases hparts with ⟨hname, hcount, hnodes⟩
  rw [show definition.toDocument = Document.ofMembers definition.members from rfl, htree, ofTree?,
    hfields]
  simp only [bind, Option.bind_some, field?_perm hperm, hname, hcount, hnodes]

/-- A definition that fits in a budget is read back from what it is written as. -/
theorem FitsIn.ofTree?_toTree (h : definition.FitsIn (budget + 1)) :
    ofTree? (budget + 4) definition.toDocument.toTree = some definition := by
  have hnodes : items? Node.ofTree? (budget + 3)
      (Document.array (definition.nodes.map Node.toDocument)).toTree = some definition.nodes := by
    rw [Document.toTree, Document.itemTrees_eq_map, List.map_map, items?]
    exact mapM_map_eq_some fun node hnode => (h node hnode).ofTree?_toTree
  have hcount : nullable? unsigned?
      (definition.nodeCount.map fun count => (unsigned count).toTree) =
        some definition.nodeCount := by
    cases hcount : definition.nodeCount with
    | none => rfl
    | some count =>
        have hword : unsigned? (unsigned count).toTree = some count := unsigned?_ofUInt64 count
        rw [Option.map_some, nullable?_some (by rintro ⟨⟩), hword]
        rfl
  rw [ofTree?_toTree_eq, ofParts?]
  simp only [bind, Option.bind_some, defaulted?, string?, required?, hcount, hnodes]
  rfl

/-- A definition that is read from its fields fits in the budget. -/
theorem fitsIn_of_ofParts? {name count nodes : Option Tree} (hnodes : ∀ t ∈ nodes, t.AllFinite)
    (h : ofParts? (budget + 2) name count nodes = some definition) : definition.FitsIn budget := by
  rcases Option.bind_eq_some_iff.1 h with ⟨title, -, h⟩
  rcases Option.bind_eq_some_iff.1 h with ⟨recorded, -, h⟩
  rcases Option.bind_eq_some_iff.1 h with ⟨found, hfound, h⟩
  cases h
  rcases Option.bind_eq_some_iff.1 hfound with ⟨t, rfl, hread⟩
  rcases exists_of_items? hread with ⟨items, rfl, hitems⟩
  intro node hnode
  rcases exists_mem_of_mapM hitems node hnode with ⟨item, hitem, hnodeRead⟩
  have hfinite : Tree.AllFiniteItems items := hnodes _ rfl
  exact Node.fitsIn_of_ofTree? (hfinite.allFinite item hitem) hnodeRead

/-- A definition that is read fits in the budget. -/
theorem fitsIn_of_ofTree? {t : Tree} (ht : t.AllFinite)
    (h : ofTree? (budget + 3) t = some definition) : definition.FitsIn budget := by
  unfold ofTree? at h
  split at h
  · rename_i members heq
    cases heq
    rcases Option.bind_eq_some_iff.1 h with ⟨fields, hfields, h⟩
    rcases Option.bind_eq_some_iff.1 h with ⟨name, -, h⟩
    rcases Option.bind_eq_some_iff.1 h with ⟨count, -, h⟩
    rcases Option.bind_eq_some_iff.1 h with ⟨nodes, hnodes, h⟩
    refine fitsIn_of_ofParts? ?_ h
    rintro t rfl
    exact allFinite_of_field? ht hfields hnodes
  · rename_i items heq
    cases heq
    split at h
    · cases h
    · exact fitsIn_of_ofParts? (fun t hmem => ht.allFinite t (List.mem_of_getElem? hmem)) h
  · cases h

theorem FitsIn.allFinite_toDocument (h : definition.FitsIn budget) :
    definition.toDocument.AllFinite := by
  have hnodes : Document.AllFiniteItems (definition.nodes.map Node.toDocument) := by
    refine Document.allFiniteItems_iff.2 fun d hd => ?_
    rcases List.mem_map.1 hd with ⟨node, hnode, rfl⟩
    exact (h node hnode).allFinite_toDocument
  refine allFinite_ofMembers fun member hmem => ?_
  rcases List.mem_append.1 hmem with hmem | hmem
  · rcases List.mem_pair.1 hmem with rfl | rfl
    · trivial
    · exact hnodes
  · rcases definition with ⟨name, count, nodes⟩
    cases count with
    | none => cases hmem
    | some count =>
        rw [List.mem_singleton.1 hmem]
        rfl

end GraphDefinition

end TriggerGraph
