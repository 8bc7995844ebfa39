import Fabula.Proofs.Script.Compiled
import Fabula.Proofs.Text.Trim

/-!
# Writing a script and reading it back

A script is written as one line with its characters and one line for each sentence. Every line
that was read is written as a line that reads the same: its parts have no blanks at their ends and
none of the marks at which they would be cut elsewhere. The links between sentences are found
again from the lines.
-/

namespace Fabula

/-- The script as a text. -/
def Script.written (s : Script) : String :=
  "\n".intercalate
    (("[Char] " ++ ", ".intercalate s.characters) :: s.sentences.map Script.Sentence.write)

namespace Script

def Line.write : Line → String
  | say l =>
    if l.extra = "" then l.speaker ++ ": " ++ l.text
    else l.speaker ++ "(" ++ l.extra ++ "): " ++ l.text
  | close => "/"
  | menu => "[Menu]"
  | option text => "- " ++ text
  | conditional condition => "[If] " ++ condition
  | branch condition => "[Elif] " ++ condition
  | otherwise => "[Else]"
  | jump (some label) => "[Jump] " ++ label
  | jump none => "[Jump]"
  | command c => "[" ++ c.name ++ "]"

theorem Sentence.write_eq (s : Sentence) : s.write = s.line.write := by
  rcases s with _ | _ | _ | _ | _ | _ | _ | (_ | _) | _ <;> rfl

/-- The line, written, is a line of a text that says the same. -/
structure Line.ReadsBack (l : Line) : Prop where
  no_newline : '\n' ∉ l.write.toList
  same : read (Text.trim l.write.toList) = .ok (.line l)

theorem Line.ReadsBack.ne_nil {l : Line} (h : l.ReadsBack) : l.write.toList ≠ [] := by
  intro hnil
  have hsame := h.same
  rw [hnil] at hsame
  simp [read] at hsame

section Marked
variable {content : List Char}

theorem read_keyword {keyword : List Char} {b : Builtin} (hkeyword : ']' ∉ keyword)
    (hb : builtin? (String.ofList (Text.lowercase keyword)) = some b) (content : List Char) :
    read (Text.trim ('[' :: (keyword ++ ']' :: ' ' :: content))) =
      b.reading (Text.trim content) := by
  rw [Text.trim_cons_of_not_blank (by decide), Text.trimRight_append_of_not_blank (by decide)]
  simp only [read, Text.cutAt_append_cons hkeyword, hb]
  rw [Text.trim_trimRight, Text.trim_cons_blank (by decide)]

theorem read_option (content : List Char) :
    read (Text.trim ('-' :: ' ' :: content)) = Builtin.menuItem.reading (Text.trim content) := by
  rw [Text.trim_cons_of_not_blank (by decide)]
  simp only [read]
  rw [Text.trim_trimRight, Text.trim_cons_blank (by decide)]

end Marked

/-- No mark stands first that would make a line anything but dialogue. -/
def Bare (cs : List Char) : Prop := ∀ c, cs.head? = some c → c ≠ '[' ∧ c ≠ '/' ∧ c ≠ '-'

theorem read_bare {cs : List Char} (h : Bare cs) (hne : cs ≠ []) : read cs = .ok (sayIn cs) := by
  unfold read
  split
  · exact absurd rfl hne
  · exact absurd rfl (h '[' rfl).1
  · exact absurd rfl (h '/' rfl).2.1
  · exact absurd rfl (h '-' rfl).2.2
  · rfl

/-- The beginning of a trimmed line, itself trimmed, begins as the line does. -/
theorem Bare.trim_front {cs front rest : List Char} (h : Bare cs) (htrim : Text.trim cs = cs)
    (hcs : cs = front ++ rest) : Bare (Text.trim front) := by
  cases front with
  | nil => simp [Bare]
  | cons c front =>
    have hc : Text.isBlank c = false := by
      rw [hcs] at htrim
      exact Text.not_blank_of_trim_eq_cons htrim
    rw [Text.trim_cons_of_not_blank hc]
    intro d hd
    exact h d (by rw [hcs, ← hd]; rfl)

section Speaker
variable {host name extra : List Char}

theorem speakerIn_of_not_mem (h : '(' ∉ host) : speakerIn host = (host, []) := by
  unfold speakerIn
  cases hinner : Text.dropLast? ')' host with
  | none => rfl
  | some inner =>
    have hhost := Text.dropLast?_eq_some_iff.mp hinner
    have hnone : Text.cutAt '(' inner = none := by
      apply Text.cutAt_eq_none_iff.mpr
      intro hmem
      exact h (by rw [hhost]; simp [hmem])
    simp only [hnone]

theorem speakerIn_parentheses (hname : '(' ∉ name) :
    speakerIn (name ++ '(' :: (extra ++ [')'])) = (Text.trim name, Text.trim extra) := by
  have hinner : Text.dropLast? ')' (name ++ '(' :: (extra ++ [')'])) =
      some (name ++ '(' :: extra) := Text.dropLast?_eq_some_iff.mpr (by simp)
  simp only [speakerIn, hinner, Text.cutAt_append_cons hname]

theorem speakerIn_cases (host : List Char) :
    speakerIn host = (host, []) ∨ ∃ name extra, '(' ∉ name ∧
      host = name ++ '(' :: (extra ++ [')']) ∧
        speakerIn host = (Text.trim name, Text.trim extra) := by
  unfold speakerIn
  cases hinner : Text.dropLast? ')' host with
  | none => exact .inl rfl
  | some inner =>
    cases hcut : Text.cutAt '(' inner with
    | none => exact .inl (by simp only [hcut])
    | some parts =>
      obtain ⟨name, extra⟩ := parts
      right
      refine ⟨name, extra, Text.not_mem_of_cutAt hcut, ?_, by simp only [hcut]⟩
      rw [Text.dropLast?_eq_some_iff.mp hinner, Text.cutAt_append hcut]
      simp

/-- What stands before the colon of a line of dialogue, when it is written. -/
def hostOf (name extra : List Char) : List Char :=
  if extra = [] then name else name ++ '(' :: (extra ++ [')'])

/-- What can stand before the colon of a line that has no blanks at its ends. -/
structure Host (host : List Char) : Prop where
  trimmed : Text.trim host = host
  no_colon : ':' ∉ host
  no_newline : '\n' ∉ host
  bare : Bare host

theorem Bare.append {cs : List Char} {mark : Char} (h : Bare cs)
    (hmark : mark ≠ '[' ∧ mark ≠ '/' ∧ mark ≠ '-') (rest : List Char) :
    Bare (cs ++ mark :: rest) := by
  cases cs with
  | nil =>
    intro c hc
    obtain rfl := Option.some.inj hc
    exact hmark
  | cons d cs => exact fun c hc => h c hc

/-- The written speaker is cut as the one that was read. -/
theorem Host.written (h : Host host) :
    Host (hostOf (speakerIn host).1 (speakerIn host).2) ∧
      speakerIn (hostOf (speakerIn host).1 (speakerIn host).2) = speakerIn host := by
  rcases speakerIn_cases host with hwhole | ⟨name, extra, hname, hsplit, hparts⟩
  · rw [hwhole]
    exact ⟨h, hwhole⟩
  · rw [hparts]
    have hmem : ∀ c, c ∈ Text.trim name ∨ c ∈ Text.trim extra → c ∈ host := by
      intro c hc
      rw [hsplit]
      rcases hc with hc | hc
      · simp [Text.mem_of_mem_trim hc]
      · simp [Text.mem_of_mem_trim hc]
    have hbare : Bare (Text.trim name) := h.bare.trim_front h.trimmed hsplit
    have hopen : '(' ∉ Text.trim name := fun hc => hname (Text.mem_of_mem_trim hc)
    by_cases hextra : Text.trim extra = []
    · -- empty parentheses are not written, and the name alone is not cut again
      rw [hextra, hostOf, if_pos rfl]
      refine ⟨⟨Text.trim_trim name, ?_, ?_, hbare⟩, speakerIn_of_not_mem hopen⟩
      · exact fun hc => h.no_colon (hmem _ (.inl hc))
      · exact fun hc => h.no_newline (hmem _ (.inl hc))
    · have hhost : hostOf (Text.trim name) (Text.trim extra) =
          Text.trim name ++ '(' :: (Text.trim extra ++ [')']) := if_neg hextra
      have hno : ∀ c, c ∉ host → c ≠ '(' → c ≠ ')' →
          c ∉ Text.trim name ++ '(' :: (Text.trim extra ++ [')']) := by
        intro c hc hopening hclosing
        apply Text.not_mem_append_cons (fun hn => hc (hmem c (.inl hn))) hopening
        exact Text.not_mem_append_cons (fun he => hc (hmem c (.inr he))) hclosing List.not_mem_nil
      rw [hhost]
      refine ⟨⟨?_, ?_, ?_, hbare.append (by decide) _⟩, ?_⟩
      · rw [Text.trim_append_cons (Text.trim_trim name) (by decide),
          Text.trimRight_append_of_not_blank (by decide)]
        rfl
      · exact hno ':' h.no_colon (by decide) (by decide)
      · exact hno '\n' h.no_newline (by decide) (by decide)
      · rw [speakerIn_parentheses hopen, Text.trim_trim, Text.trim_trim]

theorem Host.read_said (h : Host host) {text : List Char} (htext : Text.trim text = text) :
    read (Text.trim (host ++ ':' :: ' ' :: text)) =
      .ok (.line (.say ⟨String.ofList (speakerIn host).1, String.ofList (speakerIn host).2,
        String.ofList text⟩)) := by
  rw [Text.trim_append_cons h.trimmed (by decide),
    read_bare (h.bare.append (by decide) _) (by simp), sayIn,
    Text.cutAt_append_cons h.no_colon]
  simp only [h.trimmed]
  rw [Text.trim_trimRight, Text.trim_cons_blank (by decide), htext]

theorem write_say (name extra text : List Char) :
    (Line.say ⟨String.ofList name, String.ofList extra, String.ofList text⟩).write.toList =
      hostOf name extra ++ ':' :: ' ' :: text := by
  unfold Line.write hostOf
  by_cases hextra : extra = []
  · simp [hextra]
  · simp [hextra]

end Speaker

/-- What a line of a text holds that has no blanks at its ends. -/
structure OneLine (cs : List Char) : Prop where
  trimmed : Text.trim cs = cs
  no_newline : '\n' ∉ cs

theorem readsBack_of_sayIn {cs : List Char} {l : Line} (h : OneLine cs) (hbare : Bare cs)
    (hread : sayIn cs = .line l) : l.ReadsBack := by
  unfold sayIn at hread
  cases hcut : Text.cutAt ':' cs with
  | none => simp [hcut] at hread
  | some parts =>
    obtain ⟨before, text⟩ := parts
    have hcs := Text.cutAt_append hcut
    have hhost : Host (Text.trim before) := by
      refine ⟨Text.trim_trim before, ?_, ?_, hbare.trim_front h.trimmed hcs⟩
      · exact fun hc => Text.not_mem_of_cutAt hcut (Text.mem_of_mem_trim hc)
      · intro hc
        apply h.no_newline
        rw [hcs]
        simp [Text.mem_of_mem_trim hc]
    rw [hcut] at hread
    have hl : l = .say ⟨String.ofList (speakerIn (Text.trim before)).1,
        String.ofList (speakerIn (Text.trim before)).2, String.ofList (Text.trim text)⟩ :=
      (Reading.line.inj hread).symm
    subst hl
    obtain ⟨hwritten, hagain⟩ := hhost.written
    refine ⟨?_, ?_⟩
    · have htext : '\n' ∉ Text.trim text := by
        intro hc
        apply h.no_newline
        rw [hcs]
        simp [Text.mem_of_mem_trim hc]
      rw [write_say]
      apply Text.not_mem_append_cons hwritten.no_newline (by decide)
      exact List.not_mem_cons_of_ne_of_not_mem (by decide) htext
    · rw [write_say, hwritten.read_said (Text.trim_trim text), hagain]

theorem readsBack_close : Line.ReadsBack .close := ⟨by decide, by rfl⟩

theorem readsBack_menu : Line.ReadsBack .menu := ⟨by decide, by rfl⟩

theorem readsBack_otherwise : Line.ReadsBack .otherwise := ⟨by decide, by rfl⟩

theorem readsBack_leave : Line.ReadsBack (.jump none) := ⟨by decide, by rfl⟩

theorem readsBack_option {content : List Char} (h : OneLine content) (hne : content ≠ []) :
    Line.ReadsBack (.option (String.ofList content)) := by
  have hwrite : (Line.option (String.ofList content)).write.toList = '-' :: ' ' :: content := by
    simp [Line.write]
  refine ⟨?_, ?_⟩
  · rw [hwrite]
    apply List.not_mem_cons_of_ne_of_not_mem (by decide)
    exact List.not_mem_cons_of_ne_of_not_mem (by decide) h.no_newline
  · rw [hwrite, read_option, h.trimmed, Builtin.reading, if_neg hne]

theorem not_mem_newline_keyword {keyword content : List Char} (hkeyword : '\n' ∉ keyword)
    (h : '\n' ∉ content) : '\n' ∉ '[' :: (keyword ++ ']' :: ' ' :: content) := by
  apply List.not_mem_cons_of_ne_of_not_mem (by decide)
  apply Text.not_mem_append_cons hkeyword (by decide)
  exact List.not_mem_cons_of_ne_of_not_mem (by decide) h

theorem readsBack_keyword {l : Line} {content : List Char} {b : Builtin} (keyword : List Char)
    (hwrite : l.write.toList = '[' :: (keyword ++ ']' :: ' ' :: content))
    (hkeyword : ']' ∉ keyword) (hnewline : '\n' ∉ keyword)
    (hb : builtin? (String.ofList (Text.lowercase keyword)) = some b) (h : OneLine content)
    (hread : b.reading content = .ok (.line l)) : l.ReadsBack := by
  refine ⟨?_, ?_⟩
  · rw [hwrite]
    exact not_mem_newline_keyword hnewline h.no_newline
  · rw [hwrite, read_keyword hkeyword hb, h.trimmed, hread]

theorem readsBack_of_reading {b : Builtin} {content : List Char} {l : Line}
    (h : OneLine content) (hsay : b ≠ .say) (hread : b.reading content = .ok (.line l)) :
    l.ReadsBack := by
  cases b with
  | char => simp [Builtin.reading] at hread
  | close =>
    obtain rfl := Reading.line.inj (Except.ok.inj hread)
    exact readsBack_close
  | menu =>
    obtain rfl := Reading.line.inj (Except.ok.inj hread)
    exact readsBack_menu
  | otherwise =>
    obtain rfl := Reading.line.inj (Except.ok.inj hread)
    exact readsBack_otherwise
  | menuItem =>
    simp only [Builtin.reading] at hread
    split at hread
    · simp at hread
    · rename_i hne
      obtain rfl := Reading.line.inj (Except.ok.inj hread)
      exact readsBack_option h hne
  | ifBlock =>
    have hsame := hread
    simp only [Builtin.reading] at hread
    split at hread
    · simp at hread
    · obtain rfl := Reading.line.inj (Except.ok.inj hread)
      exact readsBack_keyword "If".toList (by simp [Line.write]) (by decide) (by decide) (by rfl)
        h hsame
  | elif =>
    have hsame := hread
    simp only [Builtin.reading] at hread
    split at hread
    · simp at hread
    · obtain rfl := Reading.line.inj (Except.ok.inj hread)
      exact readsBack_keyword "Elif".toList (by simp [Line.write]) (by decide) (by decide)
        (by rfl) h hsame
  | jump =>
    have hsame := hread
    simp only [Builtin.reading] at hread
    split at hread
    · obtain rfl := Reading.line.inj (Except.ok.inj hread)
      exact readsBack_leave
    · obtain rfl := Reading.line.inj (Except.ok.inj hread)
      exact readsBack_keyword "Jump".toList (by simp [Line.write]) (by decide) (by decide)
        (by rfl) h hsame
  | say => exact absurd rfl hsay

theorem builtin?_ne_say {keyword : String} {b : Builtin} (h : builtin? keyword = some b) :
    b ≠ .say := by
  rintro rfl
  unfold builtin? at h
  split at h <;> simp at h

theorem OneLine.trim {cs content : List Char} (h : OneLine cs) (hmem : ∀ c ∈ content, c ∈ cs) :
    OneLine (Text.trim content) :=
  ⟨Text.trim_trim content, fun hc => h.no_newline (hmem _ (Text.mem_of_mem_trim hc))⟩

/-- A line is read by a parser of its content, or as dialogue. -/
theorem read_cases {cs : List Char} {r : Reading} (h : read cs = .ok r) :
    r = .nothing ∨
      (∃ (b : Builtin) (content : List Char), b ≠ .say ∧ (∀ c ∈ content, c ∈ cs) ∧
        b.reading (Text.trim content) = .ok r) ∨
      Bare cs ∧ sayIn cs = r := by
  unfold read at h
  split at h
  · exact .inl (Except.ok.inj h).symm
  · rename_i rest
    cases hcut : Text.cutAt ']' rest with
    | none => simp [hcut] at h
    | some parts =>
      obtain ⟨keyword, content⟩ := parts
      rw [hcut] at h
      cases hb : builtin? (String.ofList (Text.lowercase keyword)) with
      | none => simp [hb] at h
      | some b =>
        simp only [hb] at h
        refine .inr (.inl ⟨b, content, builtin?_ne_say hb, fun c hc => ?_, h⟩)
        rw [Text.cutAt_append hcut]
        simp [hc]
  · rename_i content
    exact .inr (.inl ⟨.close, content, by decide, fun c hc => List.mem_cons_of_mem _ hc, h⟩)
  · rename_i content
    exact .inr (.inl ⟨.menuItem, content, by decide, fun c hc => List.mem_cons_of_mem _ hc, h⟩)
  · rename_i hbracket hslash hdash
    refine .inr (.inr ⟨?_, Except.ok.inj h⟩)
    intro c hc
    cases cs with
    | nil => simp at hc
    | cons d rest =>
      obtain rfl := Option.some.inj hc
      refine ⟨?_, ?_, ?_⟩
      · rintro rfl
        exact hbracket rest rfl
      · rintro rfl
        exact hslash rest rfl
      · rintro rfl
        exact hdash rest rfl

/-- Whatever line was read from a text is written as a line that reads the same. -/
theorem readsBack_of_read {cs : List Char} {l : Line} (h : OneLine cs)
    (hread : read cs = .ok (.line l)) : l.ReadsBack := by
  rcases read_cases hread with hnothing | ⟨b, content, hsay, hmem, hb⟩ | ⟨hbare, hsay⟩
  · simp at hnothing
  · exact readsBack_of_reading (h.trim hmem) hsay hb
  · exact readsBack_of_sayIn h hbare hsay

/-- A name as a declaration gives it. -/
structure Name (name : String) : Prop extends OneLine name.toList where
  no_comma : ',' ∉ name.toList
  ne_nil : name.toList ≠ []

theorem name_of_mem_namesIn {content : List Char} (h : '\n' ∉ content) {name : String}
    (hname : name ∈ namesIn content) : Name name := by
  obtain ⟨cs, hcs, rfl⟩ := List.mem_map.mp hname
  obtain ⟨hpart, hne⟩ := List.mem_filter.mp hcs
  obtain ⟨part, hmem, rfl⟩ := List.mem_map.mp hpart
  obtain ⟨hcomma, hsub⟩ := Text.of_mem_splitOn hmem
  have hlist : (String.ofList (Text.trim part)).toList = Text.trim part := String.toList_ofList
  refine ⟨⟨?_, ?_⟩, ?_, ?_⟩
  · rw [hlist, Text.trim_trim]
  · rw [hlist]
    exact fun hc => h (hsub _ (Text.mem_of_mem_trim hc))
  · rw [hlist]
    exact fun hc => hcomma (Text.mem_of_mem_trim hc)
  · rw [hlist]
    intro hnil
    simp [hnil] at hne

def namesOf (names : List String) : List Char :=
  [',', ' '].intercalate (names.map String.toList)

theorem namesIn_blank_cons (content : List Char) :
    namesIn (' ' :: content) = namesIn content := by
  have hsplit : (' ' :: content).splitOn ',' =
      (content.splitOn ',').modifyHead (' ' :: ·) := by
    rw [List.splitOn_cons_eq_if_modifyHead, if_neg (by decide)]
  unfold namesIn
  rw [hsplit]
  cases content.splitOn ',' with
  | nil => rfl
  | cons first more =>
    rw [List.modifyHead_cons, List.map_cons, List.map_cons, Text.trim_cons_blank (by decide)]

theorem namesIn_comma (front content : List Char) :
    namesIn (front ++ ',' :: content) = namesIn front ++ namesIn content := by
  unfold namesIn
  rw [List.splitOn_append_cons_self, List.map_append, List.filter_append, List.map_append]

theorem Name.namesIn {name : String} (h : Name name) : namesIn name.toList = [name] := by
  unfold Script.namesIn
  rw [List.splitOn_eq_singleton h.no_comma, List.map_singleton, h.trimmed, List.filter_cons,
    if_pos (by simpa using h.ne_nil), List.filter_nil, List.map_singleton, String.ofList_toList]

theorem namesOf_cons_cons (name next : String) (names : List String) :
    namesOf (name :: next :: names) = name.toList ++ ',' :: ' ' :: namesOf (next :: names) := by
  simp [namesOf, List.intercalate_cons_cons]

theorem not_mem_newline_namesOf {names : List String} (h : ∀ name ∈ names, Name name) :
    '\n' ∉ namesOf names := by
  induction names with
  | nil => simp [namesOf]
  | cons name names ih =>
    obtain ⟨hname, hnames⟩ := List.forall_mem_cons.mp h
    cases names with
    | nil => simpa [namesOf] using hname.no_newline
    | cons next names =>
      rw [namesOf_cons_cons]
      apply Text.not_mem_append_cons hname.no_newline (by decide)
      exact List.not_mem_cons_of_ne_of_not_mem (by decide) (ih hnames)

theorem trim_namesOf {names : List String} (h : ∀ name ∈ names, Name name) :
    Text.trim (namesOf names) = namesOf names ∧ (names ≠ [] → namesOf names ≠ []) := by
  induction names with
  | nil => exact ⟨rfl, fun hne => absurd rfl hne⟩
  | cons name names ih =>
    obtain ⟨hname, hnames⟩ := List.forall_mem_cons.mp h
    cases names with
    | nil =>
      have hone : namesOf [name] = name.toList := by simp [namesOf]
      rw [hone]
      exact ⟨hname.trimmed, fun _ => hname.ne_nil⟩
    | cons next names =>
      obtain ⟨htrim, hne⟩ := ih hnames
      rw [namesOf_cons_cons]
      refine ⟨?_, fun _ => by simp⟩
      have hlast := Text.trimRight_append htrim (hne (by simp)) [' ']
      rw [Text.trim_append_cons hname.trimmed (by decide)]
      rw [List.singleton_append] at hlast
      rw [hlast]

/-- Written names are read as they are. -/
theorem namesIn_namesOf {names : List String} (h : ∀ name ∈ names, Name name) :
    namesIn (namesOf names) = names := by
  induction names with
  | nil => rfl
  | cons name names ih =>
    obtain ⟨hname, hnames⟩ := List.forall_mem_cons.mp h
    cases names with
    | nil =>
      have hone : namesOf [name] = name.toList := by simp [namesOf]
      rw [hone, hname.namesIn]
    | cons next names =>
      rw [namesOf_cons_cons, namesIn_comma, namesIn_blank_cons, ih hnames, hname.namesIn]
      rfl

theorem name_of_read {cs : List Char} {names : List String} (h : OneLine cs)
    (hread : read cs = .ok (.characters names)) : ∀ name ∈ names, Name name := by
  rcases read_cases hread with hnothing | ⟨b, content, hsay, hmem, hb⟩ | ⟨hbare, hsay⟩
  · simp at hnothing
  · cases b with
    | char =>
      obtain rfl := Reading.characters.inj (Except.ok.inj hb)
      exact fun name => name_of_mem_namesIn (h.trim hmem).no_newline
    | close | menu | otherwise | jump => simp [Builtin.reading] at hb
    | menuItem | ifBlock | elif =>
      simp only [Builtin.reading] at hb
      split at hb <;> simp at hb
    | say => exact absurd rfl hsay
  · unfold sayIn at hsay
    split at hsay <;> simp at hsay

theorem nodup_foldl_insertName (names : List String) {front : List String}
    (h : front.Nodup) : (names.foldl insertName front).Nodup := by
  induction names generalizing front with
  | nil => exact h
  | cons name names ih => exact ih (nodup_insertName h name)

/-- Names that are all different are inserted as they are. -/
theorem foldl_insertName {front names : List String} (h : (front ++ names).Nodup) :
    names.foldl insertName front = front ++ names := by
  induction names generalizing front with
  | nil => simp
  | cons name names ih =>
    have hnew : name ∉ front := by
      intro hmem
      exact (List.nodup_append.mp h).2.2 name hmem name List.mem_cons_self rfl
    have hinsert : insertName front name = front ++ [name] := if_neg hnew
    rw [List.foldl_cons, hinsert, ih (by simpa using h)]
    simp

/-- What reading a text gives is what its written lines give. -/
structure Gist.Faithful (g : Gist) : Prop where
  lines : ∀ l ∈ Script.lines g.sentences, l.ReadsBack
  names : ∀ name ∈ g.characters, Name name
  nodup : g.characters.Nodup
  jumps : g.jumps = ((Script.lines g.sentences).flatMap Line.labels).foldl insertName []

theorem Gist.Faithful.characters {g : Gist} (h : g.Faithful) {names : List String}
    (hnames : ∀ name ∈ names, Name name) :
    Gist.Faithful { g with characters := names.foldl insertName g.characters } := by
  refine ⟨h.lines, ?_, nodup_foldl_insertName names h.nodup, h.jumps⟩
  intro name hname
  rcases mem_foldl_insertName.mp hname with hname | hname
  · exact h.names name hname
  · exact hnames name hname

theorem Gist.Faithful.takeLine {g g' : Gist} {raw : List Char} (h : g.Faithful)
    (hraw : '\n' ∉ raw) (htake : g.takeLine raw = .ok g') : g'.Faithful := by
  obtain ⟨r, hread, hr⟩ := takeLine_eq_ok htake
  have hline : OneLine (Text.trim raw) :=
    ⟨Text.trim_trim raw, fun hc => hraw (Text.mem_of_mem_trim hc)⟩
  cases r with
  | nothing =>
    obtain rfl := Except.ok.inj hr
    exact h
  | characters names =>
    obtain rfl := Except.ok.inj hr
    exact h.characters (name_of_read hline hread)
  | line l =>
    simp only [take] at hr
    cases hgrow : grow g.sentences l with
    | none => simp [hgrow] at hr
    | some ss =>
      rw [hgrow] at hr
      obtain rfl := Except.ok.inj hr
      have hlines := lines_grow hgrow
      refine ⟨?_, h.names, h.nodup, ?_⟩
      · intro k hk
        rw [hlines] at hk
        rcases List.mem_append.mp hk with hk | hk
        · exact h.lines k hk
        · obtain rfl := List.mem_singleton.mp hk
          exact readsBack_of_read hline hread
      · dsimp only
        rw [hlines, List.flatMap_append, List.foldl_append, ← h.jumps]
        simp

theorem Compiler.faithful_of_compile {source text : String} {script : Script}
    (h : standard.compile source text = .ok script) : script.gist.Faithful := by
  have hgist := gist_compile source text
  rw [h] at hgist
  refine Gist.takeLines_keeps (fun raw hraw g g' hg => ?_) ?_ hgist.symm
  · exact hg.takeLine (Text.not_mem_newline hraw)
  · exact ⟨by simp, by simp, List.nodup_nil, rfl⟩

/-- A script lists the labels of its jumps. -/
theorem Compiler.mem_jumps_of_compile {source text label : String} {script : Script}
    (h : standard.compile source text = .ok script)
    (hjump : .jump (some label) ∈ script.sentences) : label ∈ script.jumps := by
  have hjumps : script.jumps =
      ((Script.lines script.sentences).flatMap Line.labels).foldl insertName [] :=
    (faithful_of_compile h).jumps
  rw [hjumps, mem_foldl_insertName]
  refine .inr (List.mem_flatMap.mpr ⟨.jump (some label), ?_, by simp [Line.labels]⟩)
  exact List.mem_map_of_mem (f := Sentence.line) hjump

/-- Lines that read as growing sentences are taken one after another. -/
theorem Gist.takeLines_lines {raws : List (List Char)} {ls : List Line} {g : Gist}
    {ss : List Sentence} {number : Nat}
    (hraws : raws.map (fun raw => read (Text.trim raw)) = ls.map fun l => .ok (.line l))
    (hgrow : growAll g.sentences ls = some ss) :
    g.takeLines number raws = .ok { g with
      sentences := ss, jumps := (ls.flatMap Line.labels).foldl insertName g.jumps } := by
  induction ls generalizing raws g number with
  | nil =>
    obtain rfl := List.map_eq_nil_iff.mp hraws
    obtain rfl := Option.some.inj hgrow
    rfl
  | cons l ls ih =>
    obtain ⟨raw, rest, rfl, hraw, hrest⟩ := List.map_eq_cons_iff.mp hraws
    rw [growAll_cons] at hgrow
    obtain ⟨ts, hts, hgrow⟩ := Option.bind_eq_some_iff.mp hgrow
    have hline : g.takeLine raw = .ok { g with
        sentences := ts, jumps := l.labels.foldl insertName g.jumps } := by
      simp only [takeLine, hraw, Except.bind, take, hts]
    simp only [takeLines, hline]
    rw [ih hrest hgrow, List.flatMap_cons, List.foldl_append]

section Texts
variable {source text : String} {script : Script}

theorem write_characters (names : List String) :
    ("[Char] " ++ ", ".intercalate names).toList =
      '[' :: ("Char".toList ++ ']' :: ' ' :: namesOf names) := by
  simp [namesOf, String.toList_intercalate]

theorem toList_written (script : Script) : script.written.toList = ['\n'].intercalate
    (('[' :: ("Char".toList ++ ']' :: ' ' :: namesOf script.characters)) ::
      (lines script.sentences).map fun l => l.write.toList) := by
  have hsentences : (script.sentences.map Sentence.write).map String.toList =
      (lines script.sentences).map fun l => l.write.toList := by
    rw [lines, List.map_map, List.map_map]
    exact List.map_congr_left fun s _ => congrArg String.toList s.write_eq
  rw [Script.written, String.toList_intercalate, List.map_cons, write_characters, hsentences]
  rfl

theorem read_writtenCharacters {names : List String} (h : ∀ name ∈ names, Name name) :
    read (Text.trim ('[' :: ("Char".toList ++ ']' :: ' ' :: namesOf names))) =
      .ok (.characters names) := by
  rw [read_keyword (by decide) (b := .char) (by rfl), (trim_namesOf h).1, Builtin.reading,
    namesIn_namesOf h]

theorem read_written (h : script.gist.Faithful) :
    (Text.lines script.written.toList).map (fun raw => read (Text.trim raw)) =
      .ok (.characters script.characters) ::
        (lines script.sentences).map fun l => .ok (.line l) := by
  have htrim : (Text.lines script.written.toList).map Text.trim =
      Text.trim ('[' :: ("Char".toList ++ ']' :: ' ' :: namesOf script.characters)) ::
        (lines script.sentences).map fun l => Text.trim l.write.toList := by
    rw [toList_written, Text.trim_lines_intercalate, List.map_cons, List.map_map]
    · rfl
    · intro part hpart
      rcases List.mem_cons.mp hpart with rfl | hpart
      · refine ⟨?_, by simp⟩
        exact not_mem_newline_keyword (by decide) (not_mem_newline_namesOf h.names)
      · obtain ⟨l, hl, rfl⟩ := List.mem_map.mp hpart
        have hback := h.lines l hl
        exact ⟨hback.no_newline, hback.ne_nil⟩
  have hread := congrArg (List.map read) htrim
  have hnames : ∀ name ∈ script.characters, Name name := h.names
  rw [List.map_map, List.map_cons, List.map_map, read_writtenCharacters hnames] at hread
  have hlines : (lines script.sentences).map (read ∘ fun l => Text.trim l.write.toList) =
      (lines script.sentences).map fun l => .ok (.line l) :=
    List.map_congr_left fun l hl => (h.lines l hl).same
  rw [hlines] at hread
  exact hread

/-- A script that was compiled is compiled again from its own text. -/
theorem Compiler.compile_written (h : standard.compile source text = .ok script)
    (name : String) : ∃ again, standard.compile name script.written = .ok again ∧
      again.sentences = script.sentences ∧ again.characters = script.characters ∧
        again.jumps = script.jumps := by
  have hfaithful := faithful_of_compile h
  have hgrown : growAll [] (lines script.sentences) = some script.sentences := grown_of_compile h
  have hgist := gist_compile name script.written
  obtain ⟨first, rest, hlines, hfirst, hrest⟩ := List.map_eq_cons_iff.mp (read_written hfaithful)
  have hinsert : script.characters.foldl insertName [] = script.characters :=
    foldl_insertName hfaithful.nodup
  have hjumps : ((lines script.sentences).flatMap Line.labels).foldl insertName [] =
      script.jumps := hfaithful.jumps.symm
  have htake : Gist.takeLine ⟨name, [], [], []⟩ first =
      .ok ⟨name, [], script.characters, []⟩ := by
    simp only [Gist.takeLine, hfirst, Except.bind, Gist.take, hinsert]
  have hall : Gist.takeLines 1 (Text.lines script.written.toList) ⟨name, [], [], []⟩ =
      .ok ⟨name, script.sentences, script.characters, script.jumps⟩ := by
    rw [hlines]
    simp only [Gist.takeLines, htake]
    rw [Gist.takeLines_lines hrest hgrown]
    simp only [hjumps]
  rw [hall] at hgist
  cases hagain : standard.compile name script.written with
  | error e => simp [hagain, Except.map] at hgist
  | ok again =>
    rw [hagain] at hgist
    have hsame : again.gist = ⟨name, script.sentences, script.characters, script.jumps⟩ :=
      Except.ok.inj hgist
    exact ⟨again, rfl, congrArg Gist.sentences hsame, congrArg Gist.characters hsame,
      congrArg Gist.jumps hsame⟩

/-- Parentheses that do not match, marks inside of parts, and a block that is never closed. -/
theorem Compiler.compile_written_marks : ∃ script again,
    standard.compile "t" ("[char] B,, A ,B\n[Menu]\n- -a\nAnn)( )  : b: c\n(x (y):\n" ++
      "( z)) :-\n[IF]]: x\n[jump] ] d\n/") = .ok script ∧
    script.written =
      "[Char] B, A\n[Menu]\n- -a\nAnn): b: c\n(x (y): \n(z)): -\n[If] ]: x\n[Jump] ] d\n/" ∧
    standard.compile "u" script.written = .ok again ∧ again.sentences = script.sentences := by
  have h : standard.compile "t" ("[char] B,, A ,B\n[Menu]\n- -a\nAnn)( )  : b: c\n(x (y):\n" ++
      "( z)) :-\n[IF]]: x\n[jump] ] d\n/") = .ok
      ⟨"t", [.menu ⟨[⟨"-a", 2⟩], none⟩, .option "-a" 0, .say ⟨"Ann)", "", "b: c"⟩,
        .say ⟨"", "x (y", ""⟩, .say ⟨"", "z)", "-"⟩, .conditional ⟨"]: x", [], none, some 7⟩,
        .jump (some "] d"), .close], ["B", "A"], ["] d"],
        [⟨"t", 4, .undeclaredCharacter "Ann)"⟩, ⟨"t", 2, .neverClosed "[Menu]"⟩]⟩ := by rfl
  obtain ⟨again, hagain, hsentences, _⟩ := compile_written h "u"
  exact ⟨_, again, h, by rfl, hagain, hsentences⟩

end Texts

end Script

end Fabula
