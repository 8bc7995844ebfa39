import Fabula.Proofs.Script.Reading

/-!
# Compiled scripts are grown

Every built-in parser reads a line into a draft by growing its sentences by at most one line;
characters, labels and warnings do not touch them. Hence the sentences of every script that the
standard compiler accepts are grown from their own lines.
-/

namespace Fabula.Script

/-- What a line does to a draft: nothing to its sentences, or one line's growth. -/
def Reads (d e : Draft) : Prop :=
  e.sentences = d.sentences ∨ ∃ l, grow d.sentences l = some e.sentences

theorem reads_parse {b : Builtin} {content : List Char} {d e : Draft}
    (h : b.parse content d = .ok e) : Reads d e := by
  have hgist := gist_parse d b content
  rw [h] at hgist
  cases hr : b.reading content with
  | error kind => simp [hr, Except.map, Except.bind] at hgist
  | ok r =>
    rw [hr] at hgist
    rcases Gist.take_sentences hgist.symm with hsame | ⟨l, hl⟩
    · exact .inl hsame
    · exact .inr ⟨l, hl⟩

namespace Compiler

/-- Nothing but the parsers that the language is made of. -/
structure BuiltinOnly (c : Compiler) : Prop where
  keywords : ∀ entry ∈ c.keywords, ∃ b, entry.2 = .builtin b
  leading : ∀ p ∈ c.leading, ∃ b, p = .builtin b
  fallback : ∃ b, c.fallback = .builtin b

theorem BuiltinOnly.register {c : Compiler} (h : c.BuiltinOnly) (b : Builtin) :
    (c.register (.builtin b)).BuiltinOnly := by
  unfold Compiler.register
  split
  · refine ⟨?_, h.leading, h.fallback⟩
    intro entry he
    rcases List.mem_cons.mp he with rfl | he
    · exact ⟨b, rfl⟩
    · exact h.keywords entry he
  · refine ⟨h.keywords, ?_, h.fallback⟩
    intro p hp
    rcases List.mem_append.mp hp with hp | hp
    · exact h.leading p hp
    · exact ⟨b, List.mem_singleton.mp hp⟩

theorem standard_builtinOnly : standard.BuiltinOnly := by
  have fold : ∀ (bs : List Builtin) (c : Compiler), c.BuiltinOnly →
      (bs.foldl (fun c b => c.register (.builtin b)) c).BuiltinOnly := by
    intro bs
    induction bs with
    | nil => intro c hc; exact hc
    | cons b bs ih => intro c hc; exact ih _ (hc.register b)
  exact fold builtins empty ⟨by simp [empty], by simp [empty], .say, rfl⟩

theorem mem_of_lookup {α β : Type} [BEq α] {key : α} {value : β} :
    ∀ {entries : List (α × β)}, entries.lookup key = some value →
      ∃ entry ∈ entries, entry.2 = value := by
  intro entries
  induction entries with
  | nil => intro h; simp at h
  | cons entry rest ih =>
    obtain ⟨k, v⟩ := entry
    intro h
    rw [List.lookup_cons] at h
    split at h
    · exact ⟨(k, v), List.mem_cons_self, Option.some.inj h⟩
    · obtain ⟨e, he, hv⟩ := ih h
      exact ⟨e, List.mem_cons_of_mem _ he, hv⟩

/-- A line that is accepted was read by one of the built-in parsers. -/
theorem reads_readLine {c : Compiler} (hc : c.BuiltinOnly) {line : List Char} {d e : Draft}
    (h : c.readLine line d = .ok e) : Reads d e := by
  unfold readLine at h
  split at h
  · rename_i rest
    unfold readKeyword at h
    split at h
    · simp at h
    · split at h
      · simp at h
      · rename_i p hp
        obtain ⟨entry, hentry, rfl⟩ := mem_of_lookup hp
        obtain ⟨b, hb⟩ := hc.keywords entry hentry
        rw [hb] at h
        exact reads_parse h
  · split at h
    · rename_i first others hclaim
      have hmem : first ∈ c.leading :=
        (List.mem_filter.mp (hclaim ▸ List.mem_cons_self : first ∈ _)).1
      obtain ⟨b, rfl⟩ := hc.leading first hmem
      unfold readClaimed at h
      have hr := reads_parse h
      split at hr <;> exact hr
    · obtain ⟨b, hb⟩ := hc.fallback
      rw [hb] at h
      exact reads_parse h

theorem grown_readLines {c : Compiler} (hc : c.BuiltinOnly) :
    ∀ (raws : List (List Char)) (number : Nat) (d e : Draft), Grown d.sentences →
      c.readLines number raws d = .ok e → Grown e.sentences := by
  intro raws
  induction raws with
  | nil =>
    intro number d e hd h
    obtain rfl := Except.ok.inj h
    exact hd
  | cons raw rest ih =>
    intro number d e hd h
    simp only [readLines] at h
    split at h
    · exact ih _ d e hd h
    · split at h
      · rename_i f hf
        refine ih _ f e ?_ h
        rcases reads_readLine hc hf with hsame | ⟨l, hl⟩
        · rw [hsame]
          exact hd
        · exact hd.grow hl
      · simp at h

/-- The sentences of an accepted script are grown from their own lines. -/
theorem grown_of_compile {source text : String} {script : Script}
    (h : standard.compile source text = .ok script) : Grown script.sentences := by
  simp only [compile] at h
  cases hr : standard.readLines 1 (Text.lines text.toList) (Draft.empty source) with
  | error e => simp [hr, Except.map] at h
  | ok d =>
    rw [hr] at h
    obtain rfl := Except.ok.inj h
    rw [sentences_finish]
    exact grown_readLines standard_builtinOnly _ _ (Draft.empty source) d grown_nil hr

end Compiler

end Fabula.Script
