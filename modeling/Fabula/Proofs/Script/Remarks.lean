import Fabula.Proofs.Script.Reading

/-!
# Remarks

What the standard compiler remarks about a line that it accepts is decided by the line and by the
gist of the draft before it. A script that is compiled without a remark about a speaker declares
everyone who speaks in it.
-/

namespace Fabula.Script

/-- Text after a header that takes none is ignored. -/
def remarkContent (header : String) (content : List Char) : List Warning :=
  if content = [] then [] else [.ignoredText header (String.ofList content)]

/-- There is no open block to close. -/
def remarkClose (ss : List Sentence) : List Warning :=
  match lastIndex? Sentence.isOpen ss with
  | some _ => []
  | none => [.nothingToClose]

/-- The parentheses of a speaker do not match. -/
def remarkHost (host : List Char) : List Warning :=
  match Text.dropLast? ')' host with
  | some inner =>
    match Text.cutAt '(' inner with
    | some _ => []
    | none => [.strayParenthesis (String.ofList host)]
  | none => if host.contains '(' then [.unclosedParenthesis (String.ofList host)] else []

/-- The speaker is not declared. -/
def remarkSpeaker (characters : List String) (name : List Char) : List Warning :=
  if name = [] ∨ String.ofList name ∈ characters then []
  else [.undeclaredCharacter (String.ofList name)]

def remarkSay (characters : List String) (content : List Char) : List Warning :=
  match Text.cutAt ':' content with
  | none => []
  | some (host, _) =>
    remarkHost (Text.trim host) ++ remarkSpeaker characters (speakerIn (Text.trim host)).1

/-- What a parser remarks about the content of a line. -/
def Builtin.remarks (b : Builtin) (content : List Char) (g : Gist) : List Warning :=
  match b with
  | close => remarkContent "/" content ++ remarkClose g.sentences
  | menu => remarkContent "Menu" content
  | otherwise => remarkContent "Else" content
  | say => remarkSay g.characters content
  | _ => []

namespace Gist

/-- What is remarked about a line that has no blanks at its ends. -/
def remarks (g : Gist) (line : List Char) : List Warning :=
  match assigned line with
  | .ok (b, content) => b.remarks content g
  | .error _ => []

/-- What is remarked about lines, the first of which has the given number. -/
def remarksAll : Nat → List (List Char) → Gist → List Diagnostic
  | _, [], _ => []
  | number, raw :: rest, g =>
    (g.remarks (Text.trim raw)).map (fun w => ⟨g.source, number, w⟩) ++
      match g.takeLine raw with
      | .ok g => remarksAll (number + 1) rest g
      | .error _ => []

end Gist

/-- A draft is edited and warned about in steps; the warnings are all about its line. -/
inductive Edits (d : Draft) : List Warning → Draft → Prop
  | refl : Edits d [] d
  | warn {ws : List Warning} {e : Draft} (w : Warning) : Edits d ws e → Edits d (ws ++ [w]) (e.warn w)
  | push {ws : List Warning} {e : Draft} (s : Sentence) : Edits d ws e → Edits d ws (e.push s)
  | update {ws : List Warning} {e : Draft} (i : Nat) (f : Sentence → Sentence) : Edits d ws e →
      Edits d ws (e.update i f)
  | character {ws : List Warning} {e : Draft} (name : String) : Edits d ws e →
      Edits d ws (e.addCharacter name)
  | jump {ws : List Warning} {e : Draft} (label : String) : Edits d ws e →
      Edits d ws (e.addJump label)

/-- The draft has the remarks about its line among its warnings, and is else as before. -/
structure Noted (d : Draft) (ws : List Warning) (e : Draft) : Prop where
  line : e.line = d.line
  source : e.source = d.source
  warnings : e.warnings = d.warnings ++ ws.map fun w => ⟨d.source, d.line, w⟩

section
variable {d e : Draft} {ws : List Warning}

theorem Edits.noted (h : Edits d ws e) : Noted d ws e := by
  induction h with
  | refl => exact ⟨rfl, rfl, (List.append_nil _).symm⟩
  | @warn ws e w _ ih =>
    refine ⟨ih.line, ih.source, ?_⟩
    have hwarnings : (e.warn w).warnings = e.warnings ++ [⟨e.source, e.line, w⟩] := rfl
    rw [hwarnings, ih.warnings, ih.line, ih.source, List.map_append, List.append_assoc]
    rfl
  | push _ _ ih | update _ _ _ ih | character _ _ ih | jump _ _ ih =>
    exact ⟨ih.line, ih.source, ih.warnings⟩

theorem edits_ignoreContent (header : String) (content : List Char) (d : Draft) :
    Edits d (remarkContent header content) (ignoreContent header content d) := by
  unfold remarkContent ignoreContent
  split
  · exact .refl
  · exact Edits.refl.warn _

theorem edits_splitExtra (host : List Char) (d : Draft) :
    Edits d (remarkHost host) (splitExtra host d).2.2 := by
  unfold remarkHost splitExtra
  cases Text.dropLast? ')' host with
  | some inner =>
    cases hcut : Text.cutAt '(' inner with
    | some parts =>
      simp only [hcut]
      exact .refl
    | none =>
      simp only [hcut]
      exact Edits.refl.warn _
  | none =>
    dsimp only
    split
    · exact Edits.refl.warn _
    · exact .refl

theorem edits_parseChar (content : List Char) (d : Draft) : Edits d [] (parseChar content d) := by
  have fold : ∀ (names : List (List Char)) (e : Draft), Edits d [] e →
      Edits d [] (names.foldl (fun d name => d.addCharacter (String.ofList name)) e) := by
    intro names
    induction names with
    | nil => exact fun e he => he
    | cons name rest ih => exact fun e he => ih _ (he.character _)
  exact fold _ d .refl

theorem edits_parseClose (content : List Char) (d : Draft) :
    Edits d (Builtin.close.remarks content d.gist) (parseClose content d) := by
  have hcontent := edits_ignoreContent "/" content d
  simp only [parseClose, Builtin.remarks, remarkClose, Draft.searchBack?_eq,
    sentences_ignoreContent, Draft.gist_sentences]
  cases lastIndex? Sentence.isOpen d.sentences with
  | some opener =>
    rw [List.append_nil]
    exact (hcontent.push .close).update _ _
  | none => exact (hcontent.push .close).warn .nothingToClose

theorem edits_parseSay (content : List Char) (d : Draft) :
    Edits d (Builtin.say.remarks content d.gist) (parseSay content d) := by
  have hremarks : Builtin.say.remarks content d.gist = remarkSay d.characters content := rfl
  rw [hremarks, remarkSay, parseSay]
  cases Text.cutAt ':' content with
  | none => exact .refl
  | some parts =>
    obtain ⟨host, text⟩ := parts
    have hhost := edits_splitExtra (Text.trim host) d
    obtain ⟨e, he, hgist⟩ := splitExtra_eq d (Text.trim host)
    have hcharacters : e.characters = d.characters := congrArg Gist.characters hgist
    rw [he] at hhost
    dsimp only
    rw [he]
    dsimp only
    rw [hcharacters, remarkSpeaker]
    split
    · rw [List.append_nil]
      exact hhost.push _
    · exact (hhost.warn _).push _

theorem edits_parse {b : Builtin} {content : List Char} (h : b.parse content d = .ok e) :
    Edits d (b.remarks content d.gist) e := by
  cases b with
  | char =>
    obtain rfl := Except.ok.inj h
    exact edits_parseChar content d
  | close =>
    obtain rfl := Except.ok.inj h
    exact edits_parseClose content d
  | menu =>
    obtain rfl := Except.ok.inj h
    exact (edits_ignoreContent "Menu" content d).push _
  | menuItem =>
    simp only [Builtin.parse, parseMenuItem] at h
    split at h
    · simp at h
    split at h
    · simp at h
    obtain rfl := Except.ok.inj h
    exact (Edits.refl.update _ _).push _
  | ifBlock =>
    simp only [Builtin.parse, parseIf] at h
    split at h
    · simp at h
    obtain rfl := Except.ok.inj h
    exact Edits.refl.push _
  | elif =>
    simp only [Builtin.parse, parseElif] at h
    split at h
    · simp at h
    split at h
    · simp at h
    split at h
    · simp at h
    obtain rfl := Except.ok.inj h
    exact (Edits.refl.update _ _).push _
  | otherwise =>
    simp only [Builtin.parse, parseElse] at h
    split at h
    · simp at h
    split at h
    · simp at h
    obtain rfl := Except.ok.inj h
    exact ((edits_ignoreContent "Else" content d).update _ _).push _
  | jump =>
    simp only [Builtin.parse, parseJump] at h
    split at h
    · obtain rfl := Except.ok.inj h
      exact Edits.refl.push _
    · obtain rfl := Except.ok.inj h
      exact (Edits.refl.jump _).push _
  | say =>
    obtain rfl := Except.ok.inj h
    exact edits_parseSay content d

/-- All that the standard compiler does to a draft is to edit it. -/
theorem edits_readLine {line : List Char} (hline : line ≠ [])
    (h : Compiler.standard.readLine line d = .ok e) : Edits d (d.gist.remarks line) e := by
  rw [Compiler.readLine_standard hline] at h
  unfold Gist.remarks
  cases hassigned : assigned line with
  | error kind => simp [hassigned, Except.bind] at h
  | ok parser =>
    rw [hassigned] at h
    exact edits_parse h

theorem warnings_readLines {raws : List (List Char)} {number : Nat}
    (h : Compiler.standard.readLines number raws d = .ok e) :
    e.warnings = d.warnings ++ d.gist.remarksAll number raws := by
  induction raws generalizing number d with
  | nil =>
    obtain rfl := Except.ok.inj h
    exact (List.append_nil _).symm
  | cons raw rest ih =>
    simp only [Compiler.readLines] at h
    by_cases hblank : Text.trim raw = []
    · rw [if_pos hblank] at h
      rw [ih h, Gist.remarksAll, Gist.takeLine, hblank]
      rfl
    · rw [if_neg hblank] at h
      have hgist := Compiler.gist_readLine hblank { d with line := number }
      cases hline : Compiler.standard.readLine (Text.trim raw) { d with line := number } with
      | error kind => simp [hline] at h
      | ok f =>
        rw [hline] at h hgist
        have hnoted := (edits_readLine hblank hline).noted
        have htaken : d.gist.takeLine raw = .ok f.gist := hgist.symm
        rw [ih h, Gist.remarksAll, htaken, hnoted.warnings, List.append_assoc]
        rfl

end

/-- A warning for every block that is never closed, at the line of its opener. -/
def unclosed (source : String) (entries : List Entry) : List Diagnostic :=
  (entries.filter fun e => e.sentence.isOpen).map fun e =>
    ⟨source, e.line, .neverClosed e.sentence.write⟩

theorem finish_warnings (d : Draft) :
    d.finish.warnings = d.warnings ++ unclosed d.source d.entries := by
  have fold : ∀ (es : List Entry) (e : Draft),
      (es.foldl (fun e u => e.warnAt u.line (.neverClosed u.sentence.write)) e).warnings =
        e.warnings ++ es.map fun u => ⟨e.source, u.line, .neverClosed u.sentence.write⟩ := by
    intro es
    induction es with
    | nil => exact fun e => (List.append_nil _).symm
    | cons u rest ih =>
      intro e
      rw [List.foldl_cons, ih, Draft.warnAt, List.append_assoc]
      rfl
  exact fold _ d

theorem warnings_finish (d : Draft) : d.warnings <+: d.finish.warnings :=
  ⟨_, (finish_warnings d).symm⟩

/-- What is remarked about the lines of a text comes first among the warnings of its script. -/
theorem Compiler.remarks_of_compile {name text : String} {script : Script}
    (h : standard.compile name text = .ok script) :
    Gist.remarksAll 1 (Text.lines text.toList) ⟨name, [], [], []⟩ <+: script.warnings := by
  unfold compile at h
  cases hlines : standard.readLines 1 (Text.lines text.toList) (Draft.empty name) with
  | error e => simp [hlines, Except.map] at h
  | ok d =>
    rw [hlines] at h
    obtain rfl := Except.ok.inj h
    have hwarnings := warnings_readLines hlines
    have hempty : (Draft.empty name).warnings = [] := rfl
    rw [hempty, List.nil_append] at hwarnings
    have hfirst := warnings_finish d
    rw [hwarnings] at hfirst
    exact hfirst

/-- Everyone who speaks is declared. -/
def Gist.Declared (g : Gist) : Prop :=
  ∀ line, .say line ∈ lines g.sentences → line.speaker = "" ∨ line.speaker ∈ g.characters

theorem declared_of_remarkSay {characters : List String} {content : List Char} {line : Say}
    (hsay : sayIn content = .line (.say line))
    (hsilent : ∀ speaker, .undeclaredCharacter speaker ∉ remarkSay characters content) :
    line.speaker = "" ∨ line.speaker ∈ characters := by
  unfold sayIn at hsay
  unfold remarkSay at hsilent
  cases hcut : Text.cutAt ':' content with
  | none => simp [hcut] at hsay
  | some parts =>
    obtain ⟨host, text⟩ := parts
    simp only [hcut] at hsay hsilent
    obtain rfl := Line.say.inj (Reading.line.inj hsay)
    have hspeaker := fun speaker hmem => hsilent speaker (List.mem_append_right _ hmem)
    unfold remarkSpeaker at hspeaker
    split at hspeaker
    · rename_i hdeclared
      refine hdeclared.imp_left fun hname => ?_
      simp [hname]
    · simp at hspeaker

/-- A line of dialogue goes to the parser of dialogue. -/
theorem assigned_of_read_say {cs : List Char} {line : Say} (h : read cs = .ok (.line (.say line))) :
    ∃ content, assigned cs = .ok (.say, content) ∧ sayIn content = .line (.say line) := by
  rw [read_eq] at h
  cases hassigned : assigned cs with
  | error kind => simp [hassigned, Except.bind] at h
  | ok parser =>
    obtain ⟨b, content⟩ := parser
    rw [hassigned] at h
    have hreading : b.reading content = .ok (.line (.say line)) := h
    cases b with
    | say => exact ⟨content, rfl, Except.ok.inj hreading⟩
    | char | close | menu | otherwise | jump => simp [Builtin.reading] at hreading
    | menuItem | ifBlock | elif =>
      simp only [Builtin.reading] at hreading
      split at hreading <;> simp at hreading

theorem Gist.Declared.takeLine {g g' : Gist} {raw : List Char} (hg : g.Declared)
    (hsilent : ∀ speaker, .undeclaredCharacter speaker ∉ g.remarks (Text.trim raw))
    (h : g.takeLine raw = .ok g') : g'.Declared := by
  obtain ⟨r, hread, htake⟩ := Gist.takeLine_eq_ok h
  cases r with
  | nothing =>
    obtain rfl := Except.ok.inj htake
    exact hg
  | characters names =>
    obtain rfl := Except.ok.inj htake
    intro line hline
    exact (hg line hline).imp_right fun hmem => mem_foldl_insertName.mpr (.inl hmem)
  | line l =>
    simp only [Gist.take] at htake
    cases hgrow : grow g.sentences l with
    | none => simp [hgrow] at htake
    | some ss =>
      rw [hgrow] at htake
      obtain rfl := Except.ok.inj htake
      intro line hline
      rw [lines_grow hgrow, List.mem_append, List.mem_singleton] at hline
      rcases hline with hline | rfl
      · exact hg line hline
      · obtain ⟨content, hassigned, hsay⟩ := assigned_of_read_say hread
        rw [Gist.remarks, hassigned] at hsilent
        exact declared_of_remarkSay hsay hsilent

theorem Gist.Declared.takeLines {raws : List (List Char)} {number : Nat} {g g' : Gist}
    (hg : g.Declared)
    (hsilent : ∀ d ∈ g.remarksAll number raws, ∀ speaker, d.warning ≠ .undeclaredCharacter speaker)
    (h : g.takeLines number raws = .ok g') : g'.Declared := by
  induction raws generalizing number g with
  | nil =>
    obtain rfl := Except.ok.inj h
    exact hg
  | cons raw rest ih =>
    simp only [Gist.takeLines] at h
    cases hline : g.takeLine raw with
    | error kind => simp [hline] at h
    | ok taken =>
      rw [hline] at h
      rw [Gist.remarksAll, hline] at hsilent
      refine ih (hg.takeLine ?_ hline) ?_ h
      · intro speaker hmem
        exact hsilent _ (List.mem_append_left _ (List.mem_map_of_mem hmem)) speaker rfl
      · exact fun d hd => hsilent d (List.mem_append_right _ hd)

/-- A text that is compiled without a remark about a speaker declares everyone who speaks in it. -/
theorem Compiler.declared_of_compile {name text : String} {script : Script}
    (h : standard.compile name text = .ok script)
    (hsilent : ∀ d ∈ script.warnings, ∀ speaker, d.warning ≠ .undeclaredCharacter speaker) :
    ∀ line, .say line ∈ script.sentences → line.speaker = "" ∨ line.speaker ∈ script.characters := by
  have hlines := gist_compile name text
  rw [h] at hlines
  have hfirst := remarks_of_compile h
  have hdeclared : script.gist.Declared :=
    Gist.Declared.takeLines (g := ⟨name, [], [], []⟩) (by simp [Gist.Declared, lines])
      (fun d hd => hsilent d (hfirst.subset hd)) hlines.symm
  exact fun line hline => hdeclared line (List.mem_map_of_mem hline)

end Fabula.Script
