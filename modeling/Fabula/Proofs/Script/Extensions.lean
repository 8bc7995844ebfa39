import Fabula.Proofs.Script.Layout

/-!
# Extensions

A host registers parsers of its own. A leading parser that claims only lines that another one claims
before it changes nothing of what a text says; it only adds to the remarks that several parsers
match a line. A keyword parser changes nothing of a text that does not use its keyword. Parsers add
to the remarks on a draft and do not read them, so that a remark on one line is nothing to the next.
-/

namespace Fabula.Script

def Warning.isAmbiguous : Warning → Bool
  | .ambiguous _ _ => true
  | _ => false

/-- The remarks but those that several parsers match a line. -/
def undisputed (ws : List Diagnostic) : List Diagnostic :=
  ws.filter fun w => !w.warning.isAmbiguous

namespace Draft

/-- The draft with other remarks before its own. -/
def behind (ws : List Diagnostic) (d : Draft) : Draft := { d with warnings := ws ++ d.warnings }

def silent (d : Draft) : Draft := { d with warnings := [] }

def plain (d : Draft) : Draft := { d with warnings := undisputed d.warnings }

end Draft

end Script

def Script.plain (s : Script) : Script := { s with warnings := Script.undisputed s.warnings }

namespace Script

section
variable (ws : List Diagnostic) (d : Draft)

@[simp] theorem warn_behind (w : Warning) : (d.behind ws).warn w = (d.warn w).behind ws := by
  simp [Draft.behind, Draft.warn, Draft.warnAt]

@[simp] theorem push_behind (s : Sentence) : (d.behind ws).push s = (d.push s).behind ws := rfl

@[simp] theorem update_behind (i : Nat) (f : Sentence → Sentence) :
    (d.behind ws).update i f = (d.update i f).behind ws := rfl

@[simp] theorem size_behind : (d.behind ws).size = d.size := rfl

@[simp] theorem characters_behind : (d.behind ws).characters = d.characters := rfl

@[simp] theorem searchBack?_behind (p : Sentence → Bool) :
    (d.behind ws).searchBack? p = d.searchBack? p := rfl

@[simp] theorem hasOtherwiseAt_behind (i : Nat) :
    hasOtherwiseAt (d.behind ws) i = hasOtherwiseAt d i := rfl

@[simp] theorem ignoreContent_behind (header : String) (content : List Char) :
    ignoreContent header content (d.behind ws) = (ignoreContent header content d).behind ws := by
  unfold ignoreContent
  split <;> simp

theorem splitExtra_behind (host : List Char) : splitExtra host (d.behind ws) =
    ((splitExtra host d).1, (splitExtra host d).2.1, (splitExtra host d).2.2.behind ws) := by
  unfold splitExtra
  cases Text.dropLast? ')' host with
  | some inner => cases hcut : Text.cutAt '(' inner <;> simp [hcut]
  | none => by_cases hopen : '(' ∈ host <;> simp [hopen]

theorem parseChar_behind (content : List Char) :
    parseChar content (d.behind ws) = (parseChar content d).behind ws := by
  have fold : ∀ (names : List (List Char)) (d : Draft),
      names.foldl (fun d name => d.addCharacter (String.ofList name)) (d.behind ws) =
        (names.foldl (fun d name => d.addCharacter (String.ofList name)) d).behind ws := by
    intro names
    induction names with
    | nil => intro d; rfl
    | cons name rest ih => intro d; exact ih (d.addCharacter (String.ofList name))
  exact fold _ d

theorem parseClose_behind (content : List Char) :
    parseClose content (d.behind ws) = (parseClose content d).behind ws := by
  simp only [parseClose, ignoreContent_behind, searchBack?_behind]
  cases (ignoreContent "/" content d).searchBack? Sentence.isOpen <;> simp

theorem parseMenuItem_behind (content : List Char) :
    parseMenuItem content (d.behind ws) = (parseMenuItem content d).map (Draft.behind ws) := by
  simp only [parseMenuItem, searchBack?_behind]
  split
  · rfl
  · cases d.searchBack? Sentence.isOpenMenu <;> rfl

theorem parseIf_behind (content : List Char) :
    parseIf content (d.behind ws) = (parseIf content d).map (Draft.behind ws) := by
  unfold parseIf
  split <;> rfl

theorem parseElif_behind (content : List Char) :
    parseElif content (d.behind ws) = (parseElif content d).map (Draft.behind ws) := by
  simp only [parseElif, openConditional?, searchBack?_behind, hasOtherwiseAt_behind]
  split
  · rfl
  · cases d.searchBack? Sentence.isOpenConditional with
    | none => rfl
    | some owner =>
      cases hotherwise : hasOtherwiseAt d owner <;> simp [hotherwise, Except.map]

theorem parseElse_behind (content : List Char) :
    parseElse content (d.behind ws) = (parseElse content d).map (Draft.behind ws) := by
  simp only [parseElse, openConditional?, ignoreContent_behind, searchBack?_behind,
    hasOtherwiseAt_behind]
  cases (ignoreContent "Else" content d).searchBack? Sentence.isOpenConditional with
  | none => rfl
  | some owner =>
    cases hotherwise : hasOtherwiseAt (ignoreContent "Else" content d) owner <;>
      simp [hotherwise, Except.map]

theorem parseJump_behind (content : List Char) :
    parseJump content (d.behind ws) = (parseJump content d).behind ws := by
  unfold parseJump
  split <;> rfl

theorem parseSay_behind (content : List Char) :
    parseSay content (d.behind ws) = (parseSay content d).behind ws := by
  unfold parseSay
  cases Text.cutAt ':' content with
  | none => rfl
  | some parts =>
    obtain ⟨host, text⟩ := parts
    simp only [splitExtra_behind, characters_behind]
    split <;> simp

/-- A parser adds its remarks to those that there are, whatever they are. -/
theorem parse_behind (p : LineParser) (content : List Char) :
    p.parse content (d.behind ws) = (p.parse content d).map (Draft.behind ws) := by
  cases p with
  | builtin b =>
    cases b with
    | char => exact congrArg Except.ok (parseChar_behind ws d content)
    | close => exact congrArg Except.ok (parseClose_behind ws d content)
    | menu => simp [LineParser.parse, Builtin.parse, parseMenu, Except.map]
    | menuItem => exact parseMenuItem_behind ws d content
    | ifBlock => exact parseIf_behind ws d content
    | elif => exact parseElif_behind ws d content
    | otherwise => exact parseElse_behind ws d content
    | jump => exact congrArg Except.ok (parseJump_behind ws d content)
    | say => exact congrArg Except.ok (parseSay_behind ws d content)
  | extension e =>
    simp only [LineParser.parse, Extension.parse]
    cases e.action with
    | skip | fail | upper | char | jump | probe | command => rfl
    | warn => exact congrArg Except.ok (warn_behind ws d _)
    | say => exact congrArg Except.ok (parseSay_behind ws d content)
    | wait => cases Text.readUnsigned? (twoTo 32) content <;> rfl

end

section
variable {d e : Draft} {ws : List Diagnostic}

theorem plain_behind : (d.behind ws).plain = d.plain.behind (undisputed ws) := by
  simp [Draft.plain, Draft.behind, undisputed]

theorem plain_warn_ambiguous (used : String) (others : List String) :
    (d.warn (.ambiguous used others)).plain = d.plain := by
  simp [Draft.plain, Draft.warn, Draft.warnAt, undisputed, Warning.isAmbiguous]

theorem parse_plain (p : LineParser) (content : List Char) (h : d.plain = e.plain) :
    (p.parse content d).map Draft.plain = (p.parse content e).map Draft.plain := by
  have hsilent : ∀ f : Draft, (p.parse content f).map Draft.plain =
      (p.parse content f.plain.silent).map fun g => g.plain.behind f.plain.warnings := by
    intro f
    have hbehind := parse_behind f.warnings f.silent p content
    have hself : f.silent.behind f.warnings = f := by simp [Draft.behind, Draft.silent]
    rw [hself] at hbehind
    rw [hbehind]
    change _ = (p.parse content f.silent).map _
    cases p.parse content f.silent with
    | ok g => exact congrArg Except.ok plain_behind
    | error kind => rfl
  rw [hsilent, hsilent, h]

theorem finish_plain (h : d.plain = e.plain) : d.finish.plain = e.finish.plain := by
  have hgist : d.plain.gist = e.plain.gist := congrArg Draft.gist h
  have hsource : d.plain.source = e.plain.source := congrArg Draft.source h
  have hentries : d.plain.entries = e.plain.entries := congrArg Draft.entries h
  have hwarnings : undisputed d.warnings = undisputed e.warnings := congrArg Draft.warnings h
  change d.gist = e.gist at hgist
  change d.source = e.source at hsource
  change d.entries = e.entries at hentries
  apply eq_of_gist
  · change d.finish.gist = e.finish.gist
    rw [gist_finish, gist_finish, hgist]
  · change undisputed d.finish.warnings = undisputed e.finish.warnings
    rw [finish_warnings, finish_warnings, hsource, hentries]
    simp only [undisputed, List.filter_append] at hwarnings ⊢
    rw [hwarnings]

end

/-- The keyword of a line in brackets, in lower case. -/
def keywordIn? : List Char → Option (List Char)
  | '[' :: rest => (Text.cutAt ']' rest).map fun parts => Text.lowercase parts.1
  | _ => none

theorem map_eq_of_map_eq {ε α β γ : Type} {f : α → β} {g : α → γ} {x y : Except ε α}
    (hfg : ∀ a b, f a = f b → g a = g b) (h : x.map f = y.map f) : x.map g = y.map g := by
  cases x with
  | error e =>
    cases y with
    | error e' => exact congrArg Except.error (Except.error.inj h)
    | ok b => cases h
  | ok a =>
    cases y with
    | error e' => cases h
    | ok b => exact congrArg Except.ok (hfg a b (Except.ok.inj h))

namespace Compiler

/-- A leading parser claims the line if `p` does, when the line has no bracket before it. -/
def Covers (c : Compiler) (p : LineParser) (line : List Char) : Prop :=
  line.head? ≠ some '[' → p.claims line = true → ∃ q ∈ c.leading, q.claims line = true

instance (c : Compiler) (p : LineParser) (line : List Char) : Decidable (c.Covers p line) :=
  inferInstanceAs (Decidable (_ → _ → _))

section
variable {c c' : Compiler} {p : LineParser} {line : List Char} {d e : Draft}

theorem readClaimed_plain (first : LineParser) (others others' : List LineParser)
    (h : d.plain = e.plain) : (readClaimed first others line d).map Draft.plain =
      (readClaimed first others' line e).map Draft.plain := by
  have hwarned : ∀ (f : Draft) (qs : List LineParser), Draft.plain (if qs.isEmpty then f
      else f.warn (.ambiguous first.header (qs.map LineParser.header))) = f.plain := by
    intro f qs
    split
    · rfl
    · exact plain_warn_ambiguous _ _
  apply parse_plain
  rw [hwarned, hwarned, h]

theorem readKeyword_plain (rest : List Char) (hkeywords : c.keywords = c'.keywords)
    (h : d.plain = e.plain) :
    (c.readKeyword rest d).map Draft.plain = (c'.readKeyword rest e).map Draft.plain := by
  unfold readKeyword keyword?
  rw [hkeywords]
  cases Text.cutAt ']' rest with
  | none => rfl
  | some parts =>
    dsimp only
    cases c'.keywords.lookup (Text.lowercase parts.1) with
    | none => rfl
    | some q => exact parse_plain q _ h

theorem register_leading (hp : p.style = .leading) :
    c.register p = { c with leading := c.leading ++ [p] } := by
  rw [register, hp]

theorem register_keyword (hp : p.style = .keyword) :
    c.register p = { c with keywords := (Text.lowercase p.header.toList, p) :: c.keywords } := by
  rw [register, hp]

-- A parser that was registered last is never the first of those that claim a line, unless it is
-- the only one.
theorem readLine_of_covers (hp : p.style = .leading) (hcovers : c.Covers p line)
    (h : d.plain = e.plain) :
    ((c.register p).readLine line d).map Draft.plain = (c.readLine line e).map Draft.plain := by
  rw [register_leading hp]
  unfold readLine
  split
  · exact readKeyword_plain _ rfl h
  · rename_i hbracket
    have hfree : line.head? ≠ some '[' := by
      intro hhead
      obtain ⟨rest, hrest⟩ := List.head?_eq_some_iff.mp hhead
      exact hbracket rest hrest
    rw [List.filter_append]
    by_cases hclaims : p.claims line = true
    · obtain ⟨q, hq, hqclaims⟩ := hcovers hfree hclaims
      have hmem : q ∈ c.leading.filter fun q => q.claims line :=
        List.mem_filter.mpr ⟨hq, hqclaims⟩
      cases hfirst : c.leading.filter fun q => q.claims line with
      | nil => simp [hfirst] at hmem
      | cons first others => exact readClaimed_plain first _ others h
    · have hnone : [p].filter (fun q => q.claims line) = [] := by simp [hclaims]
      rw [hnone, List.append_nil]
      cases c.leading.filter fun q => q.claims line with
      | nil => exact parse_plain c.fallback line h
      | cons first others => exact readClaimed_plain first others others h

theorem readLine_of_keyword_ne (hp : p.style = .keyword)
    (hother : keywordIn? line ≠ some (Text.lowercase p.header.toList)) (d : Draft) :
    (c.register p).readLine line d = c.readLine line d := by
  rw [register_keyword hp]
  unfold readLine
  split
  · rename_i rest
    unfold readKeyword keyword?
    cases hcut : Text.cutAt ']' rest with
    | none => rfl
    | some parts =>
      have hne : Text.lowercase parts.1 ≠ Text.lowercase p.header.toList := by
        intro hsame
        apply hother
        rw [keywordIn?, hcut, Option.map_some, hsame]
      dsimp only
      rw [List.lookup_cons, beq_eq_false_iff_ne.mpr hne]
  · rfl

/-- What two compilers make of each line alike, they make of all lines. -/
theorem readLines_congr {α : Type} {f : Draft → α} {raws : List (List Char)}
    (hsource : ∀ d e, f d = f e → d.source = e.source)
    (hline : ∀ (n : Nat) d e, f d = f e → f { d with line := n } = f { e with line := n })
    (hread : ∀ line ∈ tidy raws, ∀ d e, f d = f e →
      (c.readLine line d).map f = (c'.readLine line e).map f) {number : Nat} (h : f d = f e) :
    (c.readLines number raws d).map f = (c'.readLines number raws e).map f := by
  induction raws generalizing number d e with
  | nil => exact congrArg Except.ok h
  | cons raw rest ih =>
    have hrest : tidy rest ⊆ tidy (raw :: rest) := by
      intro line hmem
      rw [tidy, List.map_cons, List.filter_cons]
      split
      · exact List.mem_cons_of_mem _ hmem
      · exact hmem
    have hread' := fun line hmem => hread line (hrest hmem)
    simp only [readLines]
    by_cases hblank : Text.trim raw = []
    · rw [if_pos hblank, if_pos hblank]
      exact ih hread' h
    · rw [if_neg hblank, if_neg hblank]
      have hmem : Text.trim raw ∈ tidy (raw :: rest) := by
        simp [tidy, hblank]
      have htaken := hread _ hmem _ _ (hline number d e h)
      cases hd : c.readLine (Text.trim raw) { d with line := number } with
      | error kind =>
        cases he : c'.readLine (Text.trim raw) { e with line := number } with
        | error kind' =>
          rw [hd, he] at htaken
          obtain rfl := Except.error.inj htaken
          rw [hsource d e h]
        | ok f' => simp [hd, he, Except.map] at htaken
      | ok taken =>
        cases he : c'.readLine (Text.trim raw) { e with line := number } with
        | error kind' => simp [hd, he, Except.map] at htaken
        | ok taken' =>
          rw [hd, he] at htaken
          exact ih hread' (Except.ok.inj htaken)

theorem compile_map {α : Type} (f : Script → α) (source text : String) :
    (c.compile source text).map f =
      (c.readLines 1 (Text.lines text.toList) (.empty source)).map fun d => f d.finish := by
  unfold compile
  cases c.readLines 1 (Text.lines text.toList) (.empty source) <;> rfl

end

/-- A leading parser that is registered after those that claim its lines changes no more of what is
compiled than remarks that several parsers match a line, and a keyword parser changes nothing of a
text without its keyword: not what is accepted, nor an error. -/
theorem register_conservative (c : Compiler) (p : LineParser) (source text : String) :
    (p.style = .leading → (∀ line ∈ tidy (Text.lines text.toList), c.Covers p line) →
      ((c.register p).compile source text).map Script.plain =
        (c.compile source text).map Script.plain) ∧
    (p.style = .keyword → (∀ line ∈ tidy (Text.lines text.toList),
        keywordIn? line ≠ some (Text.lowercase p.header.toList)) →
      (c.register p).compile source text = c.compile source text) := by
  constructor
  · intro hp hcovers
    have hlines : ((c.register p).readLines 1 (Text.lines text.toList) (.empty source)).map
        Draft.plain = (c.readLines 1 (Text.lines text.toList) (.empty source)).map Draft.plain := by
      apply readLines_congr
      · intro d e h
        have hsource : d.plain.source = e.plain.source := congrArg Draft.source h
        exact hsource
      · intro n d e h
        exact congrArg (fun f : Draft => { f with line := n }) h
      · intro line hmem d e h
        exact readLine_of_covers hp (hcovers line hmem) h
      · rfl
    rw [compile_map, compile_map]
    exact map_eq_of_map_eq (fun d e h => finish_plain h) hlines
  · intro hp hother
    have hlines : ((c.register p).readLines 1 (Text.lines text.toList) (.empty source)).map id =
        (c.readLines 1 (Text.lines text.toList) (.empty source)).map id := by
      apply readLines_congr
      · intro d e h
        exact congrArg Draft.source h
      · intro n d e h
        exact congrArg (fun f : Draft => { f with line := n }) h
      · intro line hmem d e h
        obtain rfl : d = e := h
        rw [readLine_of_keyword_ne hp (hother line hmem)]
      · rfl
    rw [compile, compile]
    exact map_eq_of_map_eq (fun d e h => congrArg Draft.finish h) hlines

/-- Cries out what follows an exclamation mark. -/
def shout : LineParser := .extension ⟨.leading, "!", .upper⟩

def loudShout : LineParser := .extension ⟨.leading, "!!", .upper⟩

def otherMenu : LineParser := .extension ⟨.keyword, "MENU", .skip⟩

/-- The shout reads a line that the loud shout claims as well, and there is no menu. -/
theorem register_loudShout :
    let c := standard.register shout
    let text := "[If] 1==1\n!! hey\n\n[Else] never"
    (∀ line ∈ tidy (Text.lines text.toList), c.Covers loudShout line) ∧
    (∀ line ∈ tidy (Text.lines text.toList),
      keywordIn? line ≠ some (Text.lowercase otherMenu.header.toList)) ∧
    (c.compile "a" text).toOption.map (fun s => s.warnings.map (·.line)) = some [4, 1] ∧
    ((c.register loudShout).compile "a" text).toOption.map (fun s => s.warnings.map (·.line)) =
      some [2, 4, 1] ∧
    ((c.register loudShout).compile "a" text).map Script.plain =
      (c.compile "a" text).map Script.plain ∧
    (c.register otherMenu).compile "a" text = c.compile "a" text := by
  intro c text
  have hcovers : ∀ line ∈ tidy (Text.lines text.toList), c.Covers loudShout line := by
    decide +kernel
  have hother : ∀ line ∈ tidy (Text.lines text.toList),
      keywordIn? line ≠ some (Text.lowercase otherMenu.header.toList) := by
    decide +kernel
  exact ⟨hcovers, hother, by decide +kernel, by decide +kernel,
    (register_conservative c loudShout "a" text).1 rfl hcovers,
    (register_conservative c otherMenu "a" text).2 rfl hother⟩

end Compiler

end Script

end Fabula
