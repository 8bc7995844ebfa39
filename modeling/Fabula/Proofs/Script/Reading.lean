import Fabula.Proofs.Script.Growth

/-!
# Readings

A line of a text says something by itself, or is refused by itself. Whether the sentences before it
take what it says is decided by `grow` alone. Reading a text in the standard language is no more
than this, line after line: besides line numbers and warnings, a draft is what its readings make.
-/

namespace Fabula.Script

/-- What a line says by itself. -/
inductive Reading where
  | nothing
  | characters (names : List String)
  | line (l : Line)
deriving DecidableEq, Repr

/-- The names in a declaration, between its commas. -/
def namesIn (content : List Char) : List String :=
  (((content.splitOn ',').map Text.trim).filter fun name => !name.isEmpty).map String.ofList

/-- The speaker in front of a colon, and what stands in parentheses after the name. -/
def speakerIn (host : List Char) : List Char × List Char :=
  match Text.dropLast? ')' host with
  | some inner =>
    match Text.cutAt '(' inner with
    | some (name, extra) => (Text.trim name, Text.trim extra)
    | none => (host, [])
  | none => (host, [])

/-- A line of dialogue. Without a colon it says nothing. -/
def sayIn (content : List Char) : Reading :=
  match Text.cutAt ':' content with
  | none => .nothing
  | some (host, text) =>
    let (name, extra) := speakerIn (Text.trim host)
    .line (.say ⟨String.ofList name, String.ofList extra, String.ofList (Text.trim text)⟩)

/-- What the content of a line says to its parser. -/
def Builtin.reading (b : Builtin) (content : List Char) : Except ParseError Reading :=
  let text := String.ofList content
  match b with
  | char => .ok (.characters (namesIn content))
  | close => .ok (.line .close)
  | menu => .ok (.line .menu)
  | menuItem => if content = [] then .error .emptyMenuOption else .ok (.line (.option text))
  | ifBlock =>
    if content = [] then .error (.emptyCondition "If") else .ok (.line (.conditional text))
  | elif => if content = [] then .error (.emptyCondition "Elif") else .ok (.line (.branch text))
  | otherwise => .ok (.line .otherwise)
  | jump => .ok (.line (.jump (if content = [] then none else some text)))
  | say => .ok (sayIn content)

/-- What stands in the brackets of a line, in lower case. -/
def builtin? : String → Option Builtin
  | "char" => some .char
  | "menu" => some .menu
  | "if" => some .ifBlock
  | "elif" => some .elif
  | "else" => some .otherwise
  | "jump" => some .jump
  | _ => none

/-- What a line says that has no blanks at its ends. -/
def read : List Char → Except ParseError Reading
  | [] => .ok .nothing
  | '[' :: rest =>
    match Text.cutAt ']' rest with
    | none => .error .unclosedBracket
    | some (keyword, content) =>
      match builtin? (String.ofList (Text.lowercase keyword)) with
      | none => .error (.unknownKeyword (String.ofList keyword))
      | some b => b.reading (Text.trim content)
  | '/' :: content => Builtin.close.reading (Text.trim content)
  | '-' :: content => Builtin.menuItem.reading (Text.trim content)
  | line => Builtin.say.reading line

/-- The parser that gets a line, and the content that it gets. -/
def assigned : List Char → Except ParseError (Builtin × List Char)
  | '[' :: rest =>
    match Text.cutAt ']' rest with
    | none => .error .unclosedBracket
    | some (keyword, content) =>
      match builtin? (String.ofList (Text.lowercase keyword)) with
      | none => .error (.unknownKeyword (String.ofList keyword))
      | some b => .ok (b, Text.trim content)
  | '/' :: content => .ok (.close, Text.trim content)
  | '-' :: content => .ok (.menuItem, Text.trim content)
  | line => .ok (.say, line)

theorem read_eq (line : List Char) :
    read line = (assigned line).bind fun (b, content) => b.reading content := by
  unfold read
  split
  · rfl
  · rename_i rest
    simp only [assigned]
    cases Text.cutAt ']' rest with
    | none => rfl
    | some parts =>
      obtain ⟨keyword, content⟩ := parts
      dsimp only
      cases builtin? (String.ofList (Text.lowercase keyword)) <;> rfl
  · rfl
  · rfl
  · rename_i hbracket hslash hdash
    rw [assigned.eq_4 line hbracket hslash hdash]
    rfl

namespace Draft

def sentences (d : Draft) : List Sentence := d.entries.map Entry.sentence

variable (d : Draft)

@[simp] theorem length_sentences : d.sentences.length = d.size := by simp [sentences, size]

@[simp] theorem sentences_push (s : Sentence) : (d.push s).sentences = d.sentences ++ [s] := by
  simp [sentences, push]

@[simp] theorem sentences_warn (w : Warning) : (d.warn w).sentences = d.sentences := rfl

@[simp] theorem sentences_update (i : Nat) (f : Sentence → Sentence) :
    (d.update i f).sentences = d.sentences.modify i f := by
  simp only [sentences, update]
  apply List.ext_getElem?
  intro j
  rw [List.getElem?_map, List.getElem?_modify, List.getElem?_modify, List.getElem?_map]
  cases d.entries[j]? with
  | none => rfl
  | some e => by_cases h : i = j <;> simp [h]

theorem searchBack?_eq (p : Sentence → Bool) : d.searchBack? p = lastIndex? p d.sentences :=
  (lastIndex?_map Entry.sentence p).symm

theorem sentence?_eq (i : Nat) : d.sentence? i = d.sentences[i]? :=
  List.getElem?_map.symm

end Draft

theorem hasOtherwiseAt_eq (d : Draft) (i : Nat) :
    hasOtherwiseAt d i = hasOtherwiseIn d.sentences i := by
  rw [hasOtherwiseAt, hasOtherwiseIn, d.sentence?_eq]

/-- What a draft holds besides line numbers and warnings. -/
structure Gist where
  source : String
  sentences : List Sentence
  characters : List String
  jumps : List String
deriving DecidableEq, Repr

def Draft.gist (d : Draft) : Gist := ⟨d.source, d.sentences, d.characters, d.jumps⟩

@[simp] theorem Draft.gist_sentences (d : Draft) : d.gist.sentences = d.sentences := rfl

@[simp] theorem Draft.gist_jumps (d : Draft) : d.gist.jumps = d.jumps := rfl

end Script

def Script.gist (s : Script) : Script.Gist := ⟨s.name, s.sentences, s.characters, s.jumps⟩

namespace Script

/-- The labels that a line adds. -/
def Line.labels : Line → List String
  | .jump label => label.toList
  | _ => []

/-- Why the branch of a conditional is refused. -/
def branchRefusal (header : String) (ss : List Sentence) : ParseError :=
  match lastIndex? Sentence.isOpenConditional ss with
  | none => .noOpenIf header
  | some _ => .elseAlreadyDefined header

/-- Why a line is refused that the sentences before it do not take. -/
def refusal (ss : List Sentence) : Line → ParseError
  | .option text => .optionOutsideMenu text
  | .branch _ => branchRefusal "Elif" ss
  | .otherwise => branchRefusal "Else" ss
  | _ => .unclosedBracket

theorem mem_foldl_insertName {front names : List String} {name : String} :
    name ∈ names.foldl insertName front ↔ name ∈ front ∨ name ∈ names := by
  induction names generalizing front with
  | nil => simp
  | cons n names ih => rw [List.foldl_cons, ih, mem_insertName, List.mem_cons, or_assoc]

namespace Gist

def take (g : Gist) : Reading → Except ParseError Gist
  | .nothing => .ok g
  | .characters names => .ok { g with characters := names.foldl insertName g.characters }
  | .line l =>
    match grow g.sentences l with
    | some ss => .ok { g with sentences := ss, jumps := l.labels.foldl insertName g.jumps }
    | none => .error (refusal g.sentences l)

def takeLine (g : Gist) (raw : List Char) : Except ParseError Gist :=
  (read (Text.trim raw)).bind g.take

/-- Reads lines, the first of which has the given number. -/
def takeLines : Nat → List (List Char) → Gist → Except CompileError Gist
  | _, [], g => .ok g
  | number, raw :: rest, g =>
    match g.takeLine raw with
    | .ok g => takeLines (number + 1) rest g
    | .error kind => .error ⟨g.source, number, kind⟩

theorem takeLine_eq_ok {g g' : Gist} {raw : List Char} (h : g.takeLine raw = .ok g') :
    ∃ r, read (Text.trim raw) = .ok r ∧ g.take r = .ok g' := by
  unfold takeLine at h
  cases hread : read (Text.trim raw) with
  | error kind => simp [hread, Except.bind] at h
  | ok r => exact ⟨r, rfl, by rwa [hread] at h⟩

/-- What every line keeps, all lines keep. -/
theorem takeLines_keeps {P : Gist → Prop} {raws : List (List Char)}
    (keeps : ∀ raw ∈ raws, ∀ g g', P g → g.takeLine raw = .ok g' → P g') {number : Nat}
    {g g' : Gist} (hg : P g) (h : g.takeLines number raws = .ok g') : P g' := by
  induction raws generalizing number g with
  | nil =>
    obtain rfl := Except.ok.inj h
    exact hg
  | cons raw rest ih =>
    simp only [takeLines] at h
    cases hline : g.takeLine raw with
    | error kind => simp [hline] at h
    | ok taken =>
      rw [hline] at h
      have htaken := keeps raw List.mem_cons_self g taken hg hline
      exact ih (fun raw hraw => keeps raw (List.mem_cons_of_mem _ hraw)) htaken h

theorem take_source {g g' : Gist} {r : Reading} (h : g.take r = .ok g') :
    g'.source = g.source := by
  cases r with
  | nothing => rw [← Except.ok.inj h]
  | characters names => rw [← Except.ok.inj h]
  | line l =>
    simp only [take] at h
    cases hgrow : grow g.sentences l with
    | none => simp [hgrow] at h
    | some ss =>
      rw [hgrow] at h
      rw [← Except.ok.inj h]

/-- What is read adds a line to the sentences, or leaves them alone. -/
theorem take_sentences {g g' : Gist} {r : Reading} (h : g.take r = .ok g') :
    g'.sentences = g.sentences ∨ ∃ l, grow g.sentences l = some g'.sentences := by
  cases r with
  | nothing =>
    obtain rfl := Except.ok.inj h
    exact .inl rfl
  | characters names =>
    obtain rfl := Except.ok.inj h
    exact .inl rfl
  | line l =>
    simp only [take] at h
    cases hgrow : grow g.sentences l with
    | none => simp [hgrow] at h
    | some ss =>
      rw [hgrow] at h
      obtain rfl := Except.ok.inj h
      exact .inr ⟨l, hgrow⟩

end Gist

section Gists
variable (d : Draft)

@[simp] theorem gist_warn (w : Warning) : (d.warn w).gist = d.gist := rfl

@[simp] theorem gist_warnAt (line : Nat) (w : Warning) : (d.warnAt line w).gist = d.gist := rfl

@[simp] theorem gist_push (s : Sentence) :
    (d.push s).gist = { d.gist with sentences := d.sentences ++ [s] } := by
  simp [Draft.gist, Draft.push, Draft.sentences]

@[simp] theorem gist_update (i : Nat) (f : Sentence → Sentence) :
    (d.update i f).gist = { d.gist with sentences := d.sentences.modify i f } := by
  rw [Draft.gist, Draft.sentences_update]
  rfl

@[simp] theorem gist_ignoreContent (header : String) (content : List Char) :
    (ignoreContent header content d).gist = d.gist := by
  unfold ignoreContent
  split <;> simp

@[simp] theorem sentences_ignoreContent (header : String) (content : List Char) :
    (ignoreContent header content d).sentences = d.sentences :=
  congrArg Gist.sentences (gist_ignoreContent d header content)

theorem gist_finish : d.finish.gist = d.gist := by
  have fold : ∀ (es : List Entry) (d : Draft),
      (es.foldl (fun d e => d.warnAt e.line (.neverClosed e.sentence.write)) d).gist =
        d.gist := by
    intro es
    induction es with
    | nil => intro d; rfl
    | cons e es ih => intro d; rw [List.foldl_cons, ih, gist_warnAt]
  exact fold _ d

theorem sentences_finish : d.finish.sentences = d.sentences :=
  congrArg Gist.sentences (gist_finish d)

theorem gist_parseChar (content : List Char) : (parseChar content d).gist =
    { d.gist with characters := (namesIn content).foldl insertName d.characters } := by
  have fold : ∀ (names : List (List Char)) (d : Draft),
      (names.foldl (fun d name => d.addCharacter (String.ofList name)) d).gist =
        { d.gist with characters := (names.map String.ofList).foldl insertName d.characters } := by
    intro names
    induction names with
    | nil => intro d; rfl
    | cons n ns ih => intro d; rw [List.foldl_cons, ih]; rfl
  exact fold _ d

theorem gist_parseClose (content : List Char) :
    (parseClose content d).gist = { d.gist with sentences := growClose d.sentences } := by
  have hsize : (ignoreContent "/" content d).size = d.sentences.length := by
    rw [← Draft.length_sentences, sentences_ignoreContent]
  simp only [parseClose, Draft.searchBack?_eq, sentences_ignoreContent, growClose]
  cases hi : lastIndex? Sentence.isOpen d.sentences with
  | none => simp
  | some i => simp [hsize, modify_append_of_lt (lastIndex?_lt hi)]

theorem gist_parseMenuItem (content : List Char) : (parseMenuItem content d).map Draft.gist =
    (Builtin.menuItem.reading content).bind d.gist.take := by
  simp only [parseMenuItem, Builtin.reading, Draft.searchBack?_eq]
  split
  · rfl
  · simp only [Except.bind, Gist.take, grow, growOption, Draft.gist_sentences]
    cases lastIndex? Sentence.isOpenMenu d.sentences with
    | none => rfl
    | some i => simp [Except.map, Line.labels]

theorem gist_parseIf (content : List Char) : (parseIf content d).map Draft.gist =
    (Builtin.ifBlock.reading content).bind d.gist.take := by
  simp only [parseIf, Builtin.reading]
  split
  · rfl
  · simp [Except.map, Except.bind, Gist.take, grow, Line.labels]

theorem gist_parseElif (content : List Char) : (parseElif content d).map Draft.gist =
    (Builtin.elif.reading content).bind d.gist.take := by
  simp only [parseElif, Builtin.reading, openConditional?, Draft.searchBack?_eq,
    hasOtherwiseAt_eq]
  split
  · rfl
  · simp only [Except.bind, Gist.take, grow, growBranch, Draft.gist_sentences, refusal, branchRefusal]
    cases lastIndex? Sentence.isOpenConditional d.sentences with
    | none => rfl
    | some i => cases hmore : hasOtherwiseIn d.sentences i <;>
        simp [hmore, Except.map, Line.labels]

theorem gist_parseElse (content : List Char) : (parseElse content d).map Draft.gist =
    (Builtin.otherwise.reading content).bind d.gist.take := by
  have hsize : (ignoreContent "Else" content d).size = d.sentences.length := by
    rw [← Draft.length_sentences, sentences_ignoreContent]
  simp only [parseElse, Builtin.reading, openConditional?, Draft.searchBack?_eq,
    hasOtherwiseAt_eq, sentences_ignoreContent, hsize, Except.bind, Gist.take, grow, growBranch,
    Draft.gist_sentences, refusal, branchRefusal]
  cases lastIndex? Sentence.isOpenConditional d.sentences with
  | none => rfl
  | some i => cases hmore : hasOtherwiseIn d.sentences i <;>
      simp [hmore, Except.map, Line.labels]

theorem gist_parseJump (content : List Char) : .ok (parseJump content d).gist =
    (Builtin.jump.reading content).bind d.gist.take := by
  simp only [parseJump, Builtin.reading, Except.bind, Gist.take, grow, Line.labels]
  split
  · simp
  · simp only [gist_push]
    rfl

/-- The parentheses of a speaker may be warned about. -/
theorem splitExtra_eq (host : List Char) :
    ∃ e, splitExtra host d = ((speakerIn host).1, (speakerIn host).2, e) ∧ e.gist = d.gist := by
  unfold splitExtra speakerIn
  cases Text.dropLast? ')' host with
  | some inner => cases hcut : Text.cutAt '(' inner <;> simp only [hcut] <;> exact ⟨_, rfl, rfl⟩
  | none =>
    dsimp only
    split
    · exact ⟨_, rfl, rfl⟩
    · exact ⟨_, rfl, rfl⟩

theorem gist_parseSay (content : List Char) : .ok (parseSay content d).gist =
    d.gist.take (sayIn content) := by
  unfold parseSay sayIn
  cases Text.cutAt ':' content with
  | none => rfl
  | some parts =>
    obtain ⟨host, text⟩ := parts
    obtain ⟨e, he, hgist⟩ := splitExtra_eq d (Text.trim host)
    have hsentences : e.sentences = d.sentences := congrArg Gist.sentences hgist
    dsimp only
    rw [he]
    dsimp only
    split <;> simp [Gist.take, grow, Line.labels, hgist, hsentences]

theorem gist_parse (b : Builtin) (content : List Char) :
    (b.parse content d).map Draft.gist = (b.reading content).bind d.gist.take := by
  cases b with
  | char => exact congrArg Except.ok (gist_parseChar d content)
  | close => exact congrArg Except.ok (gist_parseClose d content)
  | menu => simp [Builtin.parse, parseMenu, Except.map, Builtin.reading, Except.bind, Gist.take,
      grow, Line.labels]
  | menuItem => exact gist_parseMenuItem d content
  | ifBlock => exact gist_parseIf d content
  | elif => exact gist_parseElif d content
  | otherwise => exact gist_parseElse d content
  | jump => exact gist_parseJump d content
  | say => exact gist_parseSay d content

end Gists

/-- Nothing but the character itself becomes one that stands before the letters. -/
theorem toLower_eq_iff {c mark : Char} (h : mark.toNat < 65) : c.toLower = mark ↔ c = mark := by
  unfold Char.toLower
  split
  · rename_i hletter
    have hleast : 65 ≤ c.val.toNat := hletter.1
    have hmost : c.val.toNat ≤ 90 := hletter.2
    constructor
    · rintro rfl
      have hlower : (c.val + ('a'.val - 'A'.val)).toNat = c.val.toNat + 32 := by
        have hshift : ('a'.val - 'A'.val).toNat = 32 := rfl
        rw [UInt32.toNat_add, hshift]
        omega
      rw [Char.toNat, hlower] at h
      omega
    · rintro rfl
      rw [Char.toNat] at h
      omega
  · rfl

theorem startsWith_mark {mark c : Char} (h : mark.toNat < 65) (line : List Char) :
    LineParser.startsWith [mark] (c :: line) = (c == mark) := by
  have hmark : mark.toLower = mark := (toLower_eq_iff h).mpr rfl
  have hc : (mark == c.toLower) = (c == mark) := by
    rw [Bool.eq_iff_iff, beq_iff_eq, beq_iff_eq, eq_comm, toLower_eq_iff h]
  simp [LineParser.startsWith, hmark, hc]

namespace Compiler

theorem standard_keywords : standard.keywords = [("jump".toList, .builtin .jump),
    ("else".toList, .builtin .otherwise), ("elif".toList, .builtin .elif),
    ("if".toList, .builtin .ifBlock), ("menu".toList, .builtin .menu),
    ("char".toList, .builtin .char)] := by
  rfl

theorem standard_leading : standard.leading = [.builtin .close, .builtin .menuItem] := rfl

theorem keyword?_standard (keyword : List Char) : standard.keyword? keyword =
    (builtin? (String.ofList (Text.lowercase keyword))).map LineParser.builtin := by
  rw [keyword?, standard_keywords]
  generalize Text.lowercase keyword = lower
  have hne : ∀ word : String, (String.ofList lower = word → False) →
      (lower == word.toList) = false := by
    intro word hword
    rw [beq_eq_false_iff_ne]
    rintro rfl
    exact hword String.ofList_toList
  unfold builtin?
  split
  case h_7 hchar hmenu hif helif helse hjump =>
    simp only [List.lookup_cons, hne _ hchar, hne _ hmenu, hne _ hif, hne _ helif, hne _ helse,
      hne _ hjump]
    rfl
  all_goals
    rename_i hword
    obtain rfl := String.ofList_injective hword
    rfl

theorem claimed_standard (c : Char) (line : List Char) :
    (standard.leading.filter fun p => p.claims (c :: line)) =
      if c = '/' then [.builtin .close] else if c = '-' then [.builtin .menuItem] else [] := by
  have hclose : (LineParser.builtin .close).claims (c :: line) = (c == '/') :=
    startsWith_mark (by decide) line
  have hoption : (LineParser.builtin .menuItem).claims (c :: line) = (c == '-') :=
    startsWith_mark (by decide) line
  rw [standard_leading]
  simp only [List.filter_cons, List.filter_nil, hclose, hoption]
  by_cases hslash : c = '/'
  · subst hslash
    rfl
  · by_cases hdash : c = '-' <;> simp [hslash, hdash]

/-- The standard compiler hands a line to the parser that it is assigned to. -/
theorem readLine_standard {line : List Char} (h : line ≠ []) (d : Draft) :
    standard.readLine line d = (assigned line).bind fun (b, content) => b.parse content d := by
  unfold readLine
  split
  · simp only [readKeyword, assigned]
    cases Text.cutAt ']' _ with
    | none => rfl
    | some parts =>
      obtain ⟨keyword, content⟩ := parts
      simp only [keyword?_standard]
      cases builtin? (String.ofList (Text.lowercase keyword)) <;> rfl
  · rename_i hbracket
    cases line with
    | nil => exact absurd rfl h
    | cons c rest =>
      have hplain : c ≠ '[' := fun hc => hbracket rest (by rw [hc])
      rw [claimed_standard]
      by_cases hslash : c = '/'
      · subst hslash
        rfl
      · by_cases hdash : c = '-'
        · subst hdash
          rfl
        · have hsay : assigned (c :: rest) = .ok (.say, c :: rest) := by
            unfold assigned
            split <;> simp_all
          rw [if_neg hslash, if_neg hdash, hsay]
          rfl

/-- The standard compiler reads a line as it says. -/
theorem gist_readLine {line : List Char} (h : line ≠ []) (d : Draft) :
    (standard.readLine line d).map Draft.gist = (read line).bind d.gist.take := by
  rw [readLine_standard h, read_eq]
  cases assigned line with
  | error kind => rfl
  | ok parser => exact gist_parse d parser.1 parser.2

theorem gist_readLines (raws : List (List Char)) (number : Nat) (d : Draft) :
    (standard.readLines number raws d).map Draft.gist = d.gist.takeLines number raws := by
  induction raws generalizing number d with
  | nil => rfl
  | cons raw rest ih =>
    simp only [readLines, Gist.takeLines]
    by_cases hblank : Text.trim raw = []
    · rw [if_pos hblank, Gist.takeLine, hblank, ih]
      rfl
    · have hline := gist_readLine hblank { d with line := number }
      have hgist : Draft.gist { d with line := number } = d.gist := rfl
      rw [if_neg hblank]
      rw [hgist] at hline
      rw [Gist.takeLine, ← hline]
      cases standard.readLine (Text.trim raw) { d with line := number } with
      | error kind => rfl
      | ok e => exact ih _ _

/-- Compiling a text is reading its lines. -/
theorem gist_compile (source text : String) : (standard.compile source text).map Script.gist =
    Gist.takeLines 1 (Text.lines text.toList) ⟨source, [], [], []⟩ := by
  have hlines := gist_readLines (Text.lines text.toList) 1 (Draft.empty source)
  have hempty : (Draft.empty source).gist = ⟨source, [], [], []⟩ := rfl
  rw [hempty] at hlines
  rw [← hlines, compile]
  cases standard.readLines 1 (Text.lines text.toList) (Draft.empty source) with
  | error e => rfl
  | ok d => exact congrArg Except.ok (gist_finish d)

end Compiler

end Fabula.Script
