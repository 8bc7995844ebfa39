import Fabula.Proofs.Script.Parts

/-!
# Misplaced markers

A marker is misplaced when it stands directly in a block other than its owner's. It does not send
control on, so the places on the way to a sentence are those from which no other marker, of a
block around both, leads away.
-/

namespace Fabula.Script

variable {ss : List Sentence} {own k j n t e : Nat}

theorem exists_last {P : Nat → Prop} (h : ∃ m, m < n ∧ P m) :
    ∃ m, m < n ∧ P m ∧ ∀ i, i < n → P i → i ≤ m := by
  induction n with
  | zero =>
    obtain ⟨m, hm, _⟩ := h
    omega
  | succ n ih =>
    by_cases hn : P n
    · exact ⟨n, Nat.lt_succ_self n, hn, fun i hi _ => Nat.le_of_lt_succ hi⟩
    · obtain ⟨m, hm, hp⟩ := h
      have hmn : m ≠ n := by
        rintro rfl
        exact hn hp
      obtain ⟨l, hl, hpl, hlast⟩ := ih ⟨m, by omega, hp⟩
      refine ⟨l, by omega, hpl, fun i hi hpi => ?_⟩
      have hin : i ≠ n := by
        rintro rfl
        exact hn hpi
      exact hlast i (by omega) hpi

theorem mem_openBefore_of_marker (hg : Grown ss) (hm : MarkerOf ss own j) :
    own ∈ openBefore (lines ss) j := by
  obtain ⟨s, hs, ho⟩ := hm
  obtain ⟨hlt, hopens, hexit⟩ := hg.attached.owned j s own hs ho
  exact mem_openBefore_iff.mpr
    ⟨hopens, hlt, fun e he => Nat.le_of_lt (hexit e ((hg.matched own e).mpr he))⟩

/-- The marker at `j` of the block at `own` stands directly in the block at `k`. -/
structure Misplaced (ss : List Sentence) (own k j : Nat) : Prop where
  marker : MarkerOf ss own j
  inner : (openBefore (lines ss) j).head? = some k
  other : k ≠ own

/-- The marker at `m` stands directly in its block, which opens at `own`. -/
structure DirectMarker (ss : List Sentence) (own m : Nat) : Prop where
  marker : MarkerOf ss own m
  inner : (openBefore (lines ss) m).head? = some own

theorem direct_of_none_misplaced (hg : Grown ss) (h : ∀ own k j, ¬ Misplaced ss own k j) :
    Direct ss := by
  intro j s own hs ho
  have hmem := mem_openBefore_of_marker hg ⟨s, hs, ho⟩
  cases hhead : (openBefore (lines ss) j).head? with
  | none => simp [List.head?_eq_none_iff.mp hhead] at hmem
  | some k =>
    by_contra hk
    exact h own k j ⟨⟨s, hs, ho⟩, hhead, fun heq => hk (by rw [heq])⟩

theorem Misplaced.owner_lt (h : Misplaced ss own k j) (hg : Grown ss) : own < k ∧ k < j := by
  have hle := le_of_mem_of_head h.inner (mem_openBefore_of_marker hg h.marker)
  have hne := h.other
  have hkj := (lt_and_opensAt_of_mem (List.mem_of_mem_head? h.inner)).1
  omega

theorem DirectMarker.directAt (h : DirectMarker ss own n) : DirectAt ss own (n + 1) := by
  intro j s hj _ _
  obtain rfl : n = j := Nat.succ.inj hj
  exact h.inner

theorem directAt_of_le (hg : Grown ss) (h : t ≤ own + 1) : DirectAt ss own t := by
  intro j s hj hs ho
  have := (hg.attached.owned j s own hs ho).1
  omega

theorem opener_of_marker (hg : Grown ss) (hm : MarkerOf ss own j) {s : Sentence}
    (hs : ss[own]? = some s) : s.line.isOpener = true := by
  obtain ⟨t, ht, ho⟩ := hm
  obtain ⟨_, ⟨l, hl, hopener⟩, _⟩ := hg.attached.owned j t own ht ho
  rw [getElem?_lines, hs] at hl
  obtain rfl := Option.some.inj hl
  exact hopener

theorem directAt_of_plain (hg : Grown ss) {s : Sentence} (hs : ss[own]? = some s)
    (ho : s.line.isOpener = false) (t : Nat) : DirectAt ss own t := by
  intro j u _ hu huo
  simp [opener_of_marker hg ⟨u, hu, huo⟩ hs] at ho

theorem mem_openBefore_of_plain {s : Sentence} (hs : ss[n]? = some s)
    (ho : s.line.isOpener = false) (h : own ∈ openBefore (lines ss) (n + 1)) :
    own ∈ openBefore (lines ss) n := by
  refine mem_openBefore_of_succ h ?_
  rintro rfl
  obtain ⟨_, l, hl, hopener⟩ := lt_and_opensAt_of_mem h
  rw [getElem?_lines, hs] at hl
  obtain rfl := Option.some.inj hl
  simp [ho] at hopener

/-- From `n` control can still come to `j`: no marker that leads away lies between. -/
structure HeadsFor (ss : List Sentence) (j n : Nat) : Prop where
  before : n ≤ j
  ahead : ∀ own m, own ∈ openBefore (lines ss) n → own ∈ openBefore (lines ss) j →
    DirectMarker ss own m → m < j → m < n

namespace HeadsFor

theorem zero (ss : List Sentence) (j : Nat) : HeadsFor ss j 0 :=
  ⟨Nat.zero_le j, fun own m h => by simp at h⟩

theorem step (h : HeadsFor ss j n) (hn : n < j) {s : Sentence} (hs : ss[n]? = some s)
    (ho : s.line.isOpener = false) : HeadsFor ss j (n + 1) := by
  refine ⟨hn, fun own m hown hj hm hmj => ?_⟩
  have := h.ahead own m (mem_openBefore_of_plain hs ho hown) hj hm hmj
  omega

theorem enter (h : HeadsFor ss j n) (hnt : n < t) (htj : t ≤ j)
    (ht : openBefore (lines ss) t = n :: openBefore (lines ss) n)
    (hpast : n ∈ openBefore (lines ss) j → ∀ m, DirectMarker ss n m → m < j → m < t) :
    HeadsFor ss j t := by
  refine ⟨htj, fun own m hown hj hm hmj => ?_⟩
  rw [ht] at hown
  rcases List.mem_cons.mp hown with rfl | hown
  · exact hpast hj m hm hmj
  · have := h.ahead own m hown hj hm hmj
    omega

theorem exit_lt (hg : Grown ss) (hn : own < j) (he : exitAt ss own = some e)
    (hout : own ∉ openBefore (lines ss) j) : e < j := by
  have hcloses := (hg.matched own e).mp he
  by_contra hej
  exact hout (mem_openBefore_iff.mpr
    ⟨hcloses.opensAt, hn, fun f hf => by rw [hf.unique hcloses]; omega⟩)

theorem leave (h : HeadsFor ss j n) (hg : Grown ss) (hn : n < j) (hm : DirectMarker ss own n)
    (he : exitAt ss own = some e) : HeadsFor ss j e ∧ n < e := by
  obtain ⟨s, hs, ho⟩ := hm.marker
  obtain ⟨hlt, _, hexit⟩ := hg.attached.owned n s own hs ho
  have hne := hexit e he
  have hmem := List.mem_of_mem_head? hm.inner
  have hout : own ∉ openBefore (lines ss) j := fun hin => by
    have := h.ahead own n hmem hin hm hn
    omega
  have hej := exit_lt hg (by omega) he hout
  refine ⟨⟨by omega, fun outer m houter hj hmark hmj => ?_⟩, hne⟩
  rw [openBefore_exit hg.matched he, ← openBefore_of_head hm.inner] at houter
  have := h.ahead outer m houter hj hmark hmj
  omega

end HeadsFor

open Classical in
/-- True of an opener or marker when no marker of its block leads away between it and `j`. -/
noncomputable def latest (ss : List Sentence) (j m : Nat) : Bool :=
  decide (∀ own, own = m ∨ MarkerOf ss own m → ∀ i, DirectMarker ss own i → m < i → j ≤ i)

theorem latest_eq_true_iff {m : Nat} : latest ss j m = true ↔
    ∀ own, own = m ∨ MarkerOf ss own m → ∀ i, DirectMarker ss own i → m < i → j ≤ i := by
  simp only [latest, decide_eq_true_eq]

/-- Between an opener that is not the latest and `j` a marker of its block leads away. -/
theorem exists_direct_of_not_latest {s : Sentence} (hs : ss[n]? = some s) (ho : s.owner? = none)
    (hn : latest ss j n = false) : ∃ m, m < j ∧ DirectMarker ss n m := by
  by_contra hno
  have htrue : latest ss j n = true := by
    refine latest_eq_true_iff.mpr fun own hown i hi hni => ?_
    rcases hown with rfl | ⟨t, ht, hto⟩
    · by_contra hji
      exact hno ⟨i, by omega, hi⟩
    · obtain rfl := Option.some.inj (hs.symm.trans ht)
      simp [ho] at hto
  simp [hn] at htrue

theorem markerOf_unique {m other : Nat} (h : MarkerOf ss own m) (ho : MarkerOf ss other m) :
    own = other := by
  obtain ⟨s, hs, hown⟩ := h
  obtain ⟨t, ht, hother⟩ := ho
  obtain rfl := Option.some.inj (hs.symm.trans ht)
  exact Option.some.inj (hown.symm.trans hother)

theorem latest_of_last (hg : Grown ss) {m : Nat} (hm : MarkerOf ss n m)
    (hlast : ∀ i, i < j → DirectMarker ss n i → i ≤ m) : latest ss j m = true := by
  refine latest_eq_true_iff.mpr fun own hown i hi hmi => ?_
  rcases hown with rfl | hown
  · obtain ⟨s, hs, ho⟩ := hm
    have hopener := opener_of_marker hg hi.marker hs
    simp [(marker_plain ho).1] at hopener
  · obtain rfl := markerOf_unique hm hown
    by_contra hji
    have := hlast i (by omega) hi
    omega

end Fabula.Script
