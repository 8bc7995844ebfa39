import Fabula.Graph.Json
import Fabula.Proofs.Binary.Widening

/-!
# Graphs as they are written

A graph is read back from what it is written as: its id, its name, its nodes of every kind and its
connections, in their order. Nothing is filled in, so no id is drawn. Only a place can be lost: a
coordinate that is not finite is written as null, and null is read as no coordinate.
-/

namespace Fabula

open Binary (Single)

namespace Uuid

theorem digit?_digitChar (d : Fin 16) : digit? (Nat.digitChar d.val) = some d := by
  revert d
  decide

theorem readDigits?_digits (u : Uuid) :
    readDigits? (u.digits.map fun d => Nat.digitChar d.val) = some u := by
  have hdigits : ∀ ds : List (Fin 16),
      (ds.map fun d => Nat.digitChar d.val).mapM digit? = some ds := by
    intro ds
    induction ds with
    | nil => rfl
    | cons d rest ih => simp [digit?_digitChar, ih]
  rw [readDigits?, hdigits, Option.bind_some, ofDigits?, dif_pos u.length_eq]

/-- Only the hyphens between the groups are dropped. -/
theorem dropHyphens?_groups {a b c d e : List Char} (ha : a.length = 8) (hb : b.length = 4)
    (hc : c.length = 4) (hd : d.length = 4) (he : e.length = 12) :
    dropHyphens? (a ++ '-' :: b ++ '-' :: c ++ '-' :: d ++ '-' :: e) =
      some (a ++ b ++ c ++ d ++ e) := by
  have hplaces : let cs := a ++ '-' :: b ++ '-' :: c ++ '-' :: d ++ '-' :: e
      cs.length = 36 ∧ cs[8]? = some '-' ∧ cs[13]? = some '-' ∧ cs[18]? = some '-' ∧
        cs[23]? = some '-' := by
    simp [ha, hb, hc, hd, he]
  rw [dropHyphens?, if_pos hplaces]
  simp [ha, hb, hc, hd, List.drop_append, List.drop_of_length_le]

theorem dropHyphens?_write (u : Uuid) :
    dropHyphens? u.write = some (u.digits.map fun d => Nat.digitChar d.val) := by
  have hlength : (u.digits.map fun d => Nat.digitChar d.val).length = 32 := by
    rw [List.length_map, u.length_eq]
  unfold write
  dsimp only
  generalize (u.digits.map fun d => Nat.digitChar d.val) = cs at *
  rw [dropHyphens?_groups (by simp [hlength]) (by simp [hlength]) (by simp [hlength])
    (by simp [hlength]) (by simp [hlength])]
  rw [← List.take_add, ← List.take_add, ← List.take_add, List.take_append_drop]

theorem ofString?_toString (u : Uuid) : ofString? (toString u) = some u := by
  have hlength : u.write.length = 36 := by
    simp [write, u.length_eq]
  have htext : (toString u).toList = u.write := String.toList_ofList
  rw [ofString?, htext, read?, hlength]
  show readHyphenated? u.write = some u
  rw [readHyphenated?, dropHyphens?_write, Option.bind_some, readDigits?_digits]

end Uuid

namespace Json

section
variable {α : Type} {name key : String} {j : Json} {fields : List (String × Json)}
  {read : Json → Option α}

theorem required_cons : required ((key, j) :: fields) name read =
    if name = key then read j else required fields name read := by
  by_cases h : name = key
  · simp [required, h]
  · simp [required, List.lookup_cons, h, beq_false_of_ne h]

theorem defaulted_cons {default : α} : defaulted ((key, j) :: fields) name default read =
    if name = key then read j else defaulted fields name default read := by
  by_cases h : name = key
  · simp [defaulted, h]
  · simp [defaulted, List.lookup_cons, h, beq_false_of_ne h]

/-- A list is read back if each of its items is. -/
theorem readList_map {write : α → Json} {ok : α → Bool}
    (h : ∀ a, read (write a) = if ok a then some a else none) (as : List α) :
    readList read (.arr (as.map write)) = if as.all ok then some as else none := by
  show (as.map write).mapM read = _
  induction as with
  | nil => rfl
  | cons a rest ih =>
    rw [List.map_cons, List.mapM_cons, h, ih, List.all_cons]
    cases ok a <;> cases rest.all ok <;> rfl

theorem readList_map_some {write : α → Json} (h : ∀ a, read (write a) = some a) (as : List α) :
    readList read (.arr (as.map write)) = some as := by
  have hread : ∀ a, read (write a) = if true then some a else none := h
  rw [readList_map hread, if_pos (by simp)]

end

theorem readUuid_toString (u : Uuid) : readUuid (.str (toString u)) = some u :=
  Uuid.ofString?_toString u

theorem readSingle_coordinate (s : Single) :
    readSingle (Position.coordinate s) = if s.isFinite then some s else none := by
  rw [← Single.ofDouble_toDouble? s, Position.coordinate]
  cases s.toDouble? <;> rfl

end Json

open Json (required_cons defaulted_cons readUuid_toString)

namespace Position

def isFinite (p : Position) : Bool := p.x.isFinite && p.y.isFinite

theorem ofJson?_toJson (p : Position) :
    ofJson? p.toJson = if p.isFinite then some p else none := by
  simp only [ofJson?, toJson, isFinite, Json.record?, Option.pure_def, Option.bind_eq_bind,
    Option.bind_some, required_cons, String.reduceEq, ↓reduceIte, Json.readSingle_coordinate]
  by_cases hx : p.x.isFinite <;> by_cases hy : p.y.isFinite <;> simp [hx, hy]

theorem same_self {p : Position} (h : p.isFinite = true) : p.same p = true := by
  have hcoordinate : ∀ s : Single, s.isFinite = true → s.same s = true := by
    intro s hs
    have hrank : s.rank < Binary.Format.single.infinity := by simpa [Single.isFinite] using hs
    simp [Single.same, hrank.le]
  obtain ⟨hx, hy⟩ := Bool.and_eq_true_iff.mp h
  rw [same, hcoordinate p.x hx, hcoordinate p.y hy]
  rfl

end Position

namespace StoryNode

theorem readCharacter_toJson (name : String) :
    readCharacter (characterToJson name) = some name := by
  simp [readCharacter, characterToJson, Json.record?, required_cons, Json.readText]

theorem readSource_toJson (source : ScriptSource) :
    readSource (sourceToJson source) = some source := by
  simp [readSource, sourceToJson, Json.record?, required_cons, Json.readText]

end StoryNode

namespace Node

/-- The fields of a node are its id, its position and those of its kind. -/
theorem exists_fields (n : Node) : ∃ fields, n.toJson = .obj fields ∧
    Json.required fields "id" Json.readUuid = some n.id ∧
    Json.defaulted fields "position" .origin Position.ofJson? =
      Position.ofJson? n.position.toJson ∧
    readKind fields = some n.kind := by
  obtain ⟨id, position, kind⟩ := n
  cases kind with
  | start | finish | subgraph =>
    refine ⟨_, rfl, ?_, ?_, ?_⟩ <;>
      simp [required_cons, defaulted_cons, readUuid_toString, readKind, readKindName, kindNames]
  | story s =>
    refine ⟨_, rfl, ?_, ?_, ?_⟩ <;>
      simp [required_cons, defaulted_cons, readUuid_toString, readKind, readKindName, kindNames,
        StoryNode.ofFields?, StoryNode.readSource_toJson,
        Json.readList_map_some StoryNode.readCharacter_toJson]

theorem ofJson?_toJson (n : Node) :
    ofJson? n.toJson = if n.position.isFinite then some n else none := by
  obtain ⟨fields, hfields, hid, hposition, hkind⟩ := n.exists_fields
  rw [hfields, ofJson?, hid, hposition, hkind, Position.ofJson?_toJson]
  cases n.position.isFinite <;> rfl

theorem same_self {n : Node} (h : n.position.isFinite = true) : n.same n = true := by
  simp [same, Position.same_self h]

end Node

namespace Connection

theorem ofJson?_toJson (c : Connection) : ofJson? c.toJson = some c := by
  simp [ofJson?, toJson, Json.record?, required_cons, defaulted_cons, readUuid_toString,
    Json.readText]

end Connection

namespace Graph

/-- Whether all coordinates are finite. -/
def isFinite (g : Graph) : Bool := g.nodes.all fun n => n.position.isFinite

/-- The graph as a sketch that lacks nothing. -/
def sketch (g : Graph) : Sketch :=
  ⟨some g.id, g.name, some g.start, some g.finish, g.stories, g.subgraphs, g.connections⟩

theorem complete_sketch (g : Graph) : g.sketch.complete = pure g := rfl

theorem Sketch.ofJson?_toJson (g : Graph) :
    Sketch.ofJson? g.toJson = if g.isFinite then some g.sketch else none := by
  rw [isFinite, nodes, List.all_cons, List.all_cons, List.all_append]
  simp only [Sketch.ofJson?, toJson, Json.record?, Option.pure_def, Option.bind_eq_bind,
    Option.bind_some, required_cons, defaulted_cons, String.reduceEq, ↓reduceIte,
    readUuid_toString, Json.readText, Node.ofJson?_toJson, Option.map_some, Option.map_if,
    Json.readList_map Node.ofJson?_toJson, Json.readList_map_some Connection.ofJson?_toJson]
  cases g.start.position.isFinite <;> cases g.finish.position.isFinite <;>
    cases g.stories.all fun n => n.position.isFinite <;>
    cases g.subgraphs.all fun n => n.position.isFinite <;> rfl

theorem sameNodes_self {ns : List Node} (h : ∀ n ∈ ns, n.position.isFinite = true) :
    sameNodes ns ns = true := by
  induction ns with
  | nil => rfl
  | cons n rest ih =>
    obtain ⟨hn, hrest⟩ := List.forall_mem_cons.mp h
    rw [sameNodes, Node.same_self hn, ih hrest]
    rfl

theorem same_self {g : Graph} (h : g.isFinite = true) : g.same g = true := by
  obtain ⟨hstart, hfinish, hown⟩ : g.start.position.isFinite = true ∧
      g.finish.position.isFinite = true ∧
      ∀ n ∈ g.stories ++ g.subgraphs, n.position.isFinite = true := by
    simpa only [isFinite, nodes, List.all_eq_true, List.forall_mem_cons] using h
  obtain ⟨hstories, hsubgraphs⟩ := List.forall_mem_append.mp hown
  simp [same, Node.same_self hstart, Node.same_self hfinish, sameNodes_self hstories,
    sameNodes_self hsubgraphs]

/-- A graph whose coordinates are finite is read back from what it is written as: the graph itself,
and no id is drawn for it. A graph with a coordinate that is not finite is not read back. -/
theorem reads_back_as_written (g : Graph) :
    (g.isFinite = true → Graph.ofJson? g.toJson = some (pure g) ∧ g.same g = true) ∧
      (g.isFinite = false → Graph.ofJson? g.toJson = none) := by
  constructor
  · intro h
    rw [Graph.ofJson?, Sketch.ofJson?_toJson, if_pos h, Option.map_some, complete_sketch]
    exact ⟨rfl, same_self h⟩
  · intro h
    rw [Graph.ofJson?, Sketch.ofJson?_toJson, h]
    rfl

/-- One of each kind of node. The coordinates are a negative zero, the smallest and the largest
number, and a tenth. -/
def harbour : Graph where
  id := .ofNat 1
  name := "harbour \"\\"
  start := ⟨.ofNat 2, ⟨.ofRatio true 0 1, .ofRatio false 1 (twoTo 149)⟩, .start⟩
  finish := ⟨.ofNat 3, ⟨⟨true, 255 * twoTo 23 - 1, by decide⟩, .ofRatio false 1 10⟩, .finish⟩
  stories := [⟨.ofNat 4, .origin, .story ⟨⟨"quay", ": one\n[Jump] left"⟩, ["Ann", ""]⟩⟩]
  subgraphs := [⟨.ofNat 5, .origin, .subgraph (.ofNat 1)⟩]
  connections := [⟨.ofNat 2, defaultOutlet, .ofNat 4, defaultOutlet⟩,
    ⟨.ofNat 4, "left", .ofNat 5, "in"⟩]

/-- The harbour with its finish out of reach. -/
def openSea : Graph := { harbour with
  finish := ⟨.ofNat 3, ⟨.infinity true, .zero⟩, .finish⟩ }

theorem reads_back_harbour : harbour.isFinite = true ∧
    Graph.ofJson? harbour.toJson = some (pure harbour) ∧ harbour.same harbour = true ∧
    openSea.isFinite = false ∧ Graph.ofJson? openSea.toJson = none := by
  have hharbour : harbour.isFinite = true := by decide +kernel
  have hsea : openSea.isFinite = false := by decide +kernel
  obtain ⟨hread, hsame⟩ := (reads_back_as_written harbour).1 hharbour
  exact ⟨hharbour, hread, hsame, hsea, (reads_back_as_written openSea).2 hsea⟩

end Graph

end Fabula
