import Fabula.Proofs.Outline.Growth
import Fabula.Proofs.Outline.Parse
import Fabula.Proofs.Outline.Replies
import Fabula.Proofs.Player.OnePart

/-!
# A player tells its script's outline

A place `Meets` a sequel when every player that comes there, with given scopes, replies as the
sequel says. The meeting of a part follows from the meeting of the place after it: the marker
after a part sends the player to the closer of the block, and the closer takes the block off the
scopes.
-/

namespace Fabula.Script

open Player (Outcome Request speakerEvent)

/-- The sentences stand in the script from `i` on. -/
def CodeAt (ss : List Sentence) (i : Nat) (code : List Sentence) : Prop :=
  ∀ j s, code[j]? = some s → ss[i + j]? = some s

section CodeAt
variable {ss code more : List Sentence} {i : Nat} {s : Sentence}

theorem CodeAt.head (h : CodeAt ss i (s :: code)) : ss[i]? = some s := h 0 s rfl

theorem CodeAt.tail (h : CodeAt ss i (s :: code)) : CodeAt ss (i + 1) code := by
  intro j t ht
  have := h (j + 1) t (by simpa using ht)
  rwa [show i + 1 + j = i + (j + 1) by omega]

theorem CodeAt.left (h : CodeAt ss i (code ++ more)) : CodeAt ss i code :=
  fun j t ht => h j t (getElem?_append_of_eq_some ht)

theorem CodeAt.right (h : CodeAt ss i (code ++ more)) : CodeAt ss (i + code.length) more := by
  intro j t ht
  have hmore : (code ++ more)[code.length + j]? = some t := by
    rw [List.getElem?_append_right (by omega), Nat.add_sub_cancel_left]
    exact ht
  rw [Nat.add_assoc]
  exact h (code.length + j) t hmore

theorem codeAt_self (ss : List Sentence) : CodeAt ss 0 ss := by
  intro j s h
  rwa [Nat.zero_add]

end CodeAt

/-- A running player at a place, with speakers under their own names. -/
structure Ready (script : Script) (store : Store) (i : Nat) (scopes : List Nat)
    (p : Player SingleScript) : Prop where
  script : p.script = some script
  director : p.director = ⟨none⟩
  store : p.store = store
  index : p.index = i
  scopes : p.scopes = scopes
  running : p.status = .running

/-- Players that come to `i` with these scopes reply as `next` says. -/
def Meets (script : Script) (store : Store) (turns i : Nat) (scopes : List Nat)
    (next : Sequel) : Prop :=
  ∀ p requests, Ready script store i scopes p → told turns p requests = next p.events requests

section Meets
variable {script : Script} {store : Store} {turns i : Nat} {scopes : List Nat} {next : Sequel}
variable (hg : Grown script.sentences) (hturns : script.size < turns)
include hg hturns

theorem meets_of_turn {j : Nat} {scopes' : List Nat} (h : Meets script store turns j scopes' next)
    (hturn : ∀ p, Ready script store i scopes p →
      ∃ q, p.turn = .ok q ∧ Ready script store j scopes' q ∧ q.events = p.events) :
    Meets script store turns i scopes next := by
  intro p rs hp
  obtain ⟨q, hq, hready, hevents⟩ := hturn p hp
  rw [told_of_turn hg hturns hp.script hp.running hq, h q rs hready, hevents]

theorem meets_jump {label : Option String} (hs : script.sentences[i]? = some (.jump label))
    (h : Meets script store turns (i + 1) scopes next) :
    Meets script store turns i scopes next := by
  refine meets_of_turn hg hturns h fun p hp => ?_
  have hsentence : script.sentence? p.index = some (.jump label) := by rw [hp.index]; exact hs
  exact ⟨_, Player.turn_jump hp.script hsentence,
    { hp with index := congrArg (· + 1) hp.index }, rfl⟩

theorem meets_close (hs : script.sentences[i]? = some .close)
    (h : Meets script store turns (i + 1) scopes.tail next) :
    Meets script store turns i scopes next := by
  refine meets_of_turn hg hturns h fun p hp => ?_
  have hsentence : script.sentence? p.index = some .close := by rw [hp.index]; exact hs
  exact ⟨_, Player.turn_close hp.script hsentence,
    { hp with index := congrArg (· + 1) hp.index, scopes := congrArg List.tail hp.scopes }, rfl⟩

theorem meets_marker {s : Sentence} {own e : Nat} (hs : script.sentences[i]? = some s)
    (ho : s.owner? = some own) (he : exitAt script.sentences own = some e)
    (h : Meets script store turns e (own :: scopes) next) :
    Meets script store turns i (own :: scopes) next := by
  refine meets_of_turn hg hturns h fun p hp => ?_
  have hsentence : script.sentence? p.index = some s := by rw [hp.index]; exact hs
  have hr := Player.redirect?_of_head (p := p) hg hsentence ho (by rw [hp.scopes]; rfl) he
  exact ⟨_, Player.turn_of_redirect hp.script hsentence hr, { hp with index := rfl }, rfl⟩

theorem meets_say {line : Say} (hs : script.sentences[i]? = some (.say line))
    (h : Meets script store turns (i + 1) scopes next) :
    Meets script store turns i scopes fun shown =>
      match Template.render? store line.text with
      | some text => wait (atLine next) (shown ++ [speakerEvent line] ++ [.text text])
      | none => failed (.unbalancedBraces line.text) (shown ++ [speakerEvent line]) := by
  intro p rs hp
  have hsentence : script.sentence? p.index = some (.say line) := by rw [hp.index]; exact hs
  cases ht : Template.render? store line.text with
  | none =>
    exact told_of_failure hp.running
      (Player.turn_say_error hp.script hp.director hsentence (by rw [hp.store]; exact ht))
      (by omega) rs
  | some text =>
    have hturn := Player.turn_say hp.script hp.running hp.director hsentence
      (by rw [hp.store]; exact ht)
    have hwaits := Player.waitingMenu?_of_say hp.script hsentence
      (p.events ++ [speakerEvent line] ++ [.text text])
    rw [told_of_turn hg hturns hp.script hp.running hturn]
    refine told_of_wait rfl ?_ ?_ rs
    · intro r sequel hr
      cases r with
      | choose k => simp [atLine] at hr
      | proceed =>
        obtain rfl := Except.ok.inj hr
        refine ⟨_, Player.resume_proceed_of_line rfl hwaits, fun rs => ?_⟩
        exact h _ rs { hp with index := congrArg (· + 1) hp.index, running := rfl }
    · intro r e hr
      cases r with
      | proceed => simp [atLine] at hr
      | choose k =>
        obtain rfl := Except.error.inj hr
        exact Player.resume_choose_of_line rfl hwaits

theorem meets_menu {m : Menu} {lead : Sequel} {option : Nat → Sequel}
    (hs : script.sentences[i]? = some (.menu m))
    (hlead : Meets script store turns (i + 1) (i :: scopes) lead)
    (hoption : ∀ k o, m.options[k]? = some o →
      Meets script store turns o.target (i :: scopes) (option k)) :
    Meets script store turns i scopes fun shown =>
      wait (atMenu m.options.length lead option) (shown ++ [.menu (m.options.map (·.text))]) := by
  intro p rs hp
  have hsentence : script.sentence? p.index = some (.menu m) := by rw [hp.index]; exact hs
  have hwaits := Player.waitingMenu?_of_menu hp.script hsentence
    (p.events ++ [.menu (m.options.map (·.text))])
  have hscopes : p.index :: p.scopes = i :: scopes := by rw [hp.index, hp.scopes]
  rw [told_of_turn hg hturns hp.script hp.running (Player.turn_menu hp.script hp.running hsentence)]
  refine told_of_wait rfl ?_ ?_ rs
  · intro r sequel hr
    cases r with
    | proceed =>
      obtain rfl := Except.ok.inj hr
      refine ⟨_, Player.resume_proceed_of_menu hwaits, fun rs => ?_⟩
      exact hlead _ rs
        { hp with index := congrArg (· + 1) hp.index, scopes := hscopes, running := rfl }
    | choose k =>
      simp only [atMenu] at hr
      split at hr
      · rename_i hk
        obtain rfl := Except.ok.inj hr
        have ho : m.options[k]? = some m.options[k] := List.getElem?_eq_getElem hk
        refine ⟨_, Player.resume_choose_of_menu hwaits ho, fun rs => ?_⟩
        exact hoption k _ ho _ rs { hp with index := rfl, scopes := hscopes, running := rfl }
      · simp at hr
  · intro r e hr
    cases r with
    | proceed => simp [atMenu] at hr
    | choose k =>
      simp only [atMenu] at hr
      split at hr
      · simp at hr
      · rename_i hk
        obtain rfl := Except.error.inj hr
        exact Player.resume_choose_of_missing hwaits (List.getElem?_eq_none (by omega))

/-- What a player makes of a choice among branches: it goes where the sequel is met, or fails as
the sequel does. -/
def Selects (script : Script) (store : Store) (turns : Nat) (scopes : List Nat)
    (target : Except RunError Nat) (next : Sequel) : Prop :=
  (∃ t, target = .ok t ∧ Meets script store turns t scopes next) ∨
    ∃ c, target = .error (.unknownOperator c) ∧ next = failed (.unknownOperator c)

theorem meets_conditional {c : Conditional}
    (hs : script.sentences[i]? = some (.conditional c))
    (h : ∀ p : Player SingleScript, p.store = store →
      Selects script store turns (i :: scopes) (p.entry i c) next) :
    Meets script store turns i scopes next := by
  intro p rs hp
  have hsentence : script.sentence? p.index = some (.conditional c) := by rw [hp.index]; exact hs
  have hscopes : p.index :: p.scopes = i :: scopes := by rw [hp.index, hp.scopes]
  rcases h p hp.store with ⟨t, ht, hmeets⟩ | ⟨expression, he, hfail⟩
  · rw [← hp.index] at ht
    rw [told_of_turn hg hturns hp.script hp.running (Player.turn_conditional hp.script hsentence ht)]
    exact hmeets _ rs { hp with index := rfl, scopes := hscopes }
  · rw [← hp.index] at he
    rw [hfail]
    exact told_of_failure hp.running (Player.turn_conditional_error hp.script hsentence he)
      (by omega) rs

end Meets

section Parts
variable {script : Script} {store : Store} {turns : Nat}

theorem selects_test {yes no : Sequel} {scopes : List Nat} {condition : String} {t : Nat}
    {p : Player SingleScript} (hp : p.store = store) {target : Except RunError Nat}
    (hyes : Meets script store turns t scopes yes)
    (hno : Selects script store turns scopes target no) :
    Selects script store turns scopes
      (match p.decide condition with
        | .ok true => .ok t
        | .ok false => target
        | .error e => .error e)
      (test store condition yes no) := by
  unfold Player.decide test
  rw [hp]
  cases Condition.evaluate? store condition with
  | none => exact .inr ⟨condition, rfl, rfl⟩
  | some b =>
    cases b with
    | true => exact .inl ⟨t, rfl, hyes⟩
    | false => exact hno

theorem exitAt_of_code {i e : Nat} {s : Sentence} (hs : script.sentences[i]? = some s)
    (he : s.exit? = some e) : exitAt script.sentences i = some e := by
  rw [exitAt, hs]
  exact he

theorem Options.map_text_entries : ∀ (o : Options) (i : Nat),
    (o.entries i).map (·.text) = o.texts
  | .nil, _ => rfl
  | .cons text body rest, i => by
    rw [Options.entries, List.map_cons, rest.map_text_entries]
    rfl

theorem map_firstHolding_cons (p : Player SingleScript) (b : Branch) (rest : List Branch)
    (other : Nat) : ((p.firstHolding (b :: rest)).map fun t => t.getD other) =
      match p.decide b.condition with
      | .ok true => .ok b.target
      | .ok false => (p.firstHolding rest).map fun t => t.getD other
      | .error e => .error e := by
  rw [Player.firstHolding]
  cases p.decide b.condition with
  | error e => rfl
  | ok holds => cases holds <;> rfl

section
variable (hg : Grown script.sentences) (hturns : script.size < turns)
include hg hturns

mutual

theorem Body.meets (b : Body) {i : Nat} {scopes : List Nat} {next : Sequel}
    (hcode : CodeAt script.sentences i (b.code i))
    (h : Meets script store turns (i + b.size) scopes next) :
    Meets script store turns i scopes (b.play store next) := by
  cases b with
  | nil => exact h
  | say line rest =>
    have hrest : Meets script store turns (i + 1 + rest.size) scopes next := by
      rwa [show i + 1 + rest.size = i + (Body.say line rest).size by
        simp only [Body.size, Body.lines, List.length_cons]; omega]
    exact meets_say hg hturns hcode.head (Body.meets rest hcode.tail hrest)
  | jump label rest =>
    have hrest : Meets script store turns (i + 1 + rest.size) scopes next := by
      rwa [show i + 1 + rest.size = i + (Body.jump label rest).size by
        simp only [Body.size, Body.lines, List.length_cons]; omega]
    exact meets_jump hg hturns hcode.head (Body.meets rest hcode.tail hrest)
  | menu lead options rest =>
    have hmenu := hcode.head
    have hexit := exitAt_of_code hmenu rfl
    have hafterLead := hcode.tail.right
    have hafterOptions := hafterLead.right
    rw [Body.length_code] at hafterLead hafterOptions
    rw [Options.length_code] at hafterOptions
    have hrest : Meets script store turns
        (i + 1 + lead.size + options.size + 1 + rest.size) scopes next := by
      rwa [show i + 1 + lead.size + options.size + 1 + rest.size =
        i + (Body.menu lead options rest).size by rw [Body.size_menu]; omega]
    -- every part of the menu leads to its closer, which takes it off the scopes
    have hend : Meets script store turns (i + 1 + lead.size + options.size) (i :: scopes)
        (rest.play store next) :=
      meets_close hg hturns hafterOptions.head (Body.meets rest hafterOptions.tail hrest)
    obtain ⟨hstart, hbodies⟩ := Options.meets options hafterLead.left hexit rfl hend
    have h := meets_menu hg hturns hmenu (Body.meets lead hcode.tail.left hstart) hbodies
    have hlength := congrArg List.length (options.map_text_entries (i + 1 + lead.size))
    rw [List.length_map] at hlength
    simp only [Options.map_text_entries, hlength] at h
    exact h
  | conditional condition body branches rest =>
    have hopener := hcode.head
    have hexit := exitAt_of_code hopener rfl
    have hafterBody := hcode.tail.right
    have hafterBranches := hafterBody.right
    rw [Body.length_code] at hafterBody hafterBranches
    rw [Branches.length_code] at hafterBranches
    have hrest : Meets script store turns
        (i + 1 + body.size + branches.size + 1 + rest.size) scopes next := by
      rwa [show i + 1 + body.size + branches.size + 1 + rest.size =
        i + (Body.conditional condition body branches rest).size by
          rw [Body.size_conditional]; omega]
    have hend : Meets script store turns (i + 1 + body.size + branches.size) (i :: scopes)
        (rest.play store next) :=
      meets_close hg hturns hafterBranches.head (Body.meets rest hafterBranches.tail hrest)
    obtain ⟨hstart, hbranches⟩ := Branches.meets branches hafterBody.left hexit rfl hend
    refine meets_conditional hg hturns hopener fun p hp => ?_
    exact selects_test hp (Body.meets body hcode.tail.left hstart) (hbranches p hp)

theorem Options.meets (o : Options) {own i e : Nat} {scopes : List Nat} {after : Sequel}
    (hcode : CodeAt script.sentences i (o.code own i))
    (he : exitAt script.sentences own = some e) (hie : i + o.size = e)
    (h : Meets script store turns e (own :: scopes) after) :
    Meets script store turns i (own :: scopes) after ∧
      ∀ k opt, (o.entries i)[k]? = some opt →
        Meets script store turns opt.target (own :: scopes) (o.play store k after) := by
  cases o with
  | nil =>
    obtain rfl : i = e := hie
    exact ⟨h, fun k opt hk => by simp [Options.entries] at hk⟩
  | cons text body rest =>
    have hrest := hcode.tail.right
    rw [Body.length_code] at hrest
    rw [Options.size_cons] at hie
    obtain ⟨hnext, hbodies⟩ := Options.meets rest hrest he (by omega) h
    refine ⟨meets_marker hg hturns hcode.head rfl he h, fun k opt hk => ?_⟩
    cases k with
    | zero =>
      obtain rfl : ⟨text, i + 1⟩ = opt := Option.some.inj hk
      exact Body.meets body hcode.tail.left hnext
    | succ k => exact hbodies k opt hk

theorem Branches.meets (b : Branches) {own i e : Nat} {scopes : List Nat} {after : Sequel}
    (hcode : CodeAt script.sentences i (b.code own i))
    (he : exitAt script.sentences own = some e) (hie : i + b.size = e)
    (h : Meets script store turns e (own :: scopes) after) :
    Meets script store turns i (own :: scopes) after ∧
      ∀ p : Player SingleScript, p.store = store →
        Selects script store turns (own :: scopes)
          ((p.firstHolding (b.entries i)).map fun t => t.getD ((b.last? i).getD e))
          (b.play store after) := by
  cases b with
  | nil =>
    obtain rfl : i = e := hie
    exact ⟨h, fun p _ => .inl ⟨i, rfl, h⟩⟩
  | otherwise body =>
    rw [Branches.size_otherwise] at hie
    have hbody : Meets script store turns (i + 1) (own :: scopes) (body.play store after) :=
      Body.meets body hcode.tail (by rwa [show i + 1 + body.size = e by omega])
    exact ⟨meets_marker hg hturns hcode.head rfl he h, fun p _ => .inl ⟨i + 1, rfl, hbody⟩⟩
  | cons condition body rest =>
    have hrest := hcode.tail.right
    rw [Body.length_code] at hrest
    rw [Branches.size_cons] at hie
    obtain ⟨hnext, hselects⟩ := Branches.meets rest hrest he (by omega) h
    refine ⟨meets_marker hg hturns hcode.head rfl he h, fun p hp => ?_⟩
    rw [Branches.entries, map_firstHolding_cons]
    exact selects_test hp (Body.meets body hcode.tail.left hnext) (hselects p hp)

end

theorem Outline.meets (o : Outline) {i : Nat} (hcode : CodeAt script.sentences i (o.code i))
    (hsize : i + (o.code i).length = script.size) :
    Meets script store turns i [] (o.play store) := by
  induction o generalizing i with
  | body b =>
    refine Body.meets hg hturns b hcode fun p rs hp => ?_
    have hlen := b.length_code i
    have hend : script.sentence? p.index = none := by
      refine List.getElem?_eq_none ?_
      rw [hp.index]
      simp only [Outline.code, Script.size] at hsize
      omega
    exact told_of_finish hp.script hp.running hend (by omega) rs
  | stray before after ih =>
    have hlen : (before.code i ++ .close :: after.code (i + before.size + 1)).length =
        before.size + 1 + (after.code (i + before.size + 1)).length := by
      simp only [List.length_append, List.length_cons, Body.length_code]
      omega
    have hafter := hcode.right
    rw [Body.length_code] at hafter
    have hnext := ih hafter.tail (by simp only [Outline.code] at hsize; omega)
    exact Body.meets hg hturns before hcode.left (meets_close hg hturns hafter.head hnext)

end

end Parts

/-- A session of a well nested script is what its outline tells, and whenever the player waits,
its scopes are the blocks around its sentence, a menu that waits for a choice among them. -/
theorem session_tells_outline {source text : String} {script : Script}
    (h : Compiler.standard.compile source text = .ok script)
    (hnested : WellNested (lines script.sentences)) :
    (∃ o : Outline, o.lines = lines script.sentences) ∧
    ∀ o : Outline, o.lines = lines script.sentences →
      ∀ (p : Player SingleScript) (turns : Nat) (callback : Bool) (requests : List Request),
        p.director = ⟨none⟩ → script.size < turns →
        (Player.session turns p script callback requests).map Outcome.reply =
          o.play p.store (p.events ++ [.visible true]) requests ∧
        ∀ a ∈ Player.session turns p script callback requests, a.player.status = .suspended →
          a.player.scopes = openBefore (lines script.sentences) (a.player.index + 1) := by
  have hg := Compiler.grown_of_compile h
  have hd := hg.direct_iff_fits.mpr hnested.toFits
  refine ⟨exists_outline hg hnested, ?_⟩
  intro o ho p turns callback requests hdirector hturns
  rw [Player.session_eq]
  constructor
  · have hcode := hg.eq_code ho
    have hmeets : Meets script p.store turns 0 [] (o.play p.store) := by
      refine o.meets hg hturns ?_ ?_
      · rw [← hcode]
        exact codeAt_self _
      · rw [← hcode, Nat.zero_add]
        rfl
    exact hmeets (p.started script callback) requests
      { script := rfl, director := hdirector, store := rfl, index := rfl, scopes := rfl,
        running := rfl }
  · intro a ha hw
    obtain ⟨_, hstep⟩ := ((Player.kept_inStep hg hd).session turns
      (Player.inStep_started p script callback) requests).1 a ha
    exact (hstep.waiting hw).2

/-- A conditional in the body of a menu's second option, and a line after the menu. -/
def conditionalInOption : Outline :=
  .body (.menu .nil
    (.cons "a" (.say ⟨"", "", "one"⟩ .nil)
      (.cons "b"
        (.conditional "1==2" (.say ⟨"", "", "two"⟩ .nil) (.otherwise (.say ⟨"", "", "three"⟩ .nil))
          .nil)
        .nil))
    (.say ⟨"", "", "end"⟩ .nil))

theorem told_conditionalInOption : ∃ script, Compiler.standard.compile "t"
      "[Menu]\n- a\n: one\n- b\n[If] 1==2\n: two\n[Else]\n: three\n/\n/\n: end" = .ok script ∧
      (Player.session 20 (Player.new (⟨none⟩ : SingleScript) Store.empty) script false
          [.choose 1, .proceed]).map Outcome.reply =
        [⟨.suspended, none, [.visible true, .menu ["a", "b"]]⟩,
          ⟨.suspended, none, [.visible true, .menu ["a", "b"], .clearMenu, .clearCharacter,
            .text "three"]⟩,
          ⟨.suspended, none, [.visible true, .menu ["a", "b"], .clearMenu, .clearCharacter,
            .text "three", .clearCharacter, .text "end"]⟩] := by
  have h : Compiler.standard.compile "t"
      "[Menu]\n- a\n: one\n- b\n[If] 1==2\n: two\n[Else]\n: three\n/\n/\n: end" = .ok
      ⟨"t", [.menu ⟨[⟨"a", 2⟩, ⟨"b", 4⟩], some 9⟩, .option "a" 0, .say ⟨"", "", "one"⟩,
        .option "b" 0, .conditional ⟨"1==2", [], some 7, some 8⟩, .say ⟨"", "", "two"⟩,
        .otherwise 4, .say ⟨"", "", "three"⟩, .close, .close, .say ⟨"", "", "end"⟩],
        [], [], []⟩ := by rfl
  have htold := ((session_tells_outline h (by decide)).2 conditionalInOption rfl
    (Player.new (⟨none⟩ : SingleScript) Store.empty) 20 false [.choose 1, .proceed] rfl
    (by decide)).1
  refine ⟨_, h, htold.trans ?_⟩
  decide +kernel

end Fabula.Script
