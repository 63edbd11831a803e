import Mathlib.Data.List.AList
import Mathlib.Data.List.Chain
import Mathlib.Data.List.Nodup
import Plico.Framework.Checked
import Plico.Framework.Run

/-!
# Append-only logs with interleaved streams

A log is a list of records that only ever grows at its end. Records carry a key, and the records of
one key, in log order, are its stream.

* `Grown E l` says that every record of `l` was admitted by `E` over the records before it.
* `Grown.stream` turns admission that only looks at a record's own stream into the same statement
  about each stream, and `Grown.isChain` reads a chain off it.
* `grown_of_scan` is the rule for a validating loop: what one iteration checks holds of the whole log.
* `scan_total` is its converse: a loop whose every iteration succeeds accepts the log.
* `lookup_index` says what a map filled by a loop over the log holds: the last record of each key.
* `numbered` writes records with their numbers; `grown_numbered` says when the result is grown.
-/

namespace Plico

open Option List

variable {α β γ κ σ ε : Type} {a : α} {k : κ}

/-! ## Growth -/

/-- Every record of `l` was admitted by `E` over the records before it. -/
def Grown (E : List α → α → Prop) (l : List α) : Prop :=
  ∀ pre r, pre ++ [r] <+: l → E pre r

theorem grown_nil {E : List α → α → Prop} : Grown E [] := by
  intro pre r h
  simp at h

variable {E : List α → α → Prop} {l : List α} {n : Nat} {A : List α → σ → Prop} {s₀ : σ} {l' : List α}
  {f : α → Option β} {j i : Nat} {b : α} {num : α → Nat} {r : α}

theorem grown_concat : Grown E (l ++ [r]) ↔ Grown E l ∧ E l r := by
  constructor
  · intro h
    exact ⟨fun pre q hp => h pre q (hp.trans (prefix_append l [r])), h l r (prefix_refl _)⟩
  · rintro ⟨hl, hr⟩ pre q hp
    rcases prefix_concat_iff.mp hp with heq | hlt
    · obtain ⟨rfl, rfl⟩ : pre = l ∧ q = r := by simpa using heq
      exact hr
    · exact hl pre q hlt

theorem Grown.ofPrefix (h : Grown E l') (hp : l <+: l') : Grown E l :=
  fun pre r hr => h pre r (hr.trans hp)

theorem Grown.imp {F : List α → α → Prop} (h : Grown E l) (himp : ∀ pre r, pre ++ [r] <+: l → E pre r → F pre r) :
    Grown F l :=
  fun pre r hr => himp pre r hr (h pre r hr)

/-- What holds of the empty log and of every admitted extension holds of a grown log. -/
theorem Grown.induction {I : List α → Prop} (hnil : I []) (hsnoc : ∀ l r, Grown E l → I l → E l r → I (l ++ [r]))
    (h : Grown E l) : I l := by
  induction l using List.reverseRecOn with
  | nil => exact hnil
  | append_singleton l r ih =>
    obtain ⟨hl, hr⟩ := grown_concat.mp h
    exact hsnoc l r hl (ih hl) hr

/-- Conversely, a log that starts with an admitted record and goes on along a chain is grown. -/
theorem grown_of_isChain {E : Option α → α → Prop} (hhead : ∀ r, l.head? = some r → E none r)
    (hchain : l.IsChain fun q r => E (some q) r) : Grown (fun pre r => E pre.getLast? r) l := by
  rintro pre r ⟨post, rfl⟩
  cases hpre : pre.getLast? with
  | none =>
    obtain rfl := getLast?_eq_none_iff.mp hpre
    exact hhead r (by simp)
  | some q =>
    rw [append_assoc, isChain_append] at hchain
    exact hchain.2.2 q hpre r (by simp)

/-- A key that no earlier record has when its record is admitted occurs once. -/
theorem Grown.nodup_map {f : α → β} (h : Grown (fun pre r => ∀ q ∈ pre, f q ≠ f r) l) : (l.map f).Nodup := by
  refine Grown.induction (I := fun l => (l.map f).Nodup) (by simp) (fun l r _ ih hr => ?_) h
  rw [map_append, nodup_append]
  refine ⟨ih, by simp, fun a ha b hb => ?_⟩
  obtain ⟨q, hq, rfl⟩ := mem_map.mp ha
  obtain rfl : b = f r := by simpa using hb
  exact hr q hq

theorem grown_of_nodup_map {f : α → β} (h : (l.map f).Nodup) : Grown (fun pre r => ∀ q ∈ pre, f q ≠ f r) l := by
  rintro pre r ⟨post, rfl⟩ q hq he
  rw [append_assoc, map_append, nodup_append] at h
  exact h.2.2 (f q) (mem_map_of_mem hq) (f r) (by simp) he

/-- Records numbered by their position when they were admitted are numbered from one. -/
theorem Grown.sequences {f : α → Nat} (h : Grown (fun pre r => f r = pre.length + 1) l) :
    l.map f = List.range' 1 l.length := by
  refine Grown.induction (I := fun l => l.map f = List.range' 1 l.length) rfl (fun l r _ ih hr => ?_) h
  rw [map_append, ih, length_append, length_singleton, range'_1_concat]
  simp [hr, Nat.add_comm]

theorem Grown.last_sequence {f : α → Nat} (h : Grown (fun pre r => f r = pre.length + 1) l) :
    l.getLast?.elim 0 f = l.length := by
  refine Grown.induction (I := fun l => l.getLast?.elim 0 f = l.length) rfl (fun l r _ _ hr => ?_) h
  simp [hr]

/-- Where a key that some records carry does not repeat, it names one place in the log. -/
theorem index_eq_of_nodup_filterMap (hn : (l.filterMap f).Nodup) {k : β}
    (hi : l[i]? = some a) (hj : l[j]? = some b) (ha : f a = some k) (hb : f b = some k) : i = j := by
  have hpair := pairwise_iff_getElem.mp (pairwise_filterMap.mp hn)
  obtain ⟨hil, rfl⟩ := List.getElem?_eq_some_iff.mp hi
  obtain ⟨hjl, rfl⟩ := List.getElem?_eq_some_iff.mp hj
  rcases Nat.lt_trichotomy i j with hlt | heq | hlt
  · exact absurd rfl (hpair i j hil hjl hlt k ha k hb)
  · exact heq
  · exact absurd rfl (hpair j i hjl hil hlt k hb k ha)

theorem eq_of_nodup_filterMap (hn : (l.filterMap f).Nodup) {k : β} (hal : a ∈ l)
    (hbl : b ∈ l) (ha : f a = some k) (hb : f b = some k) : a = b := by
  obtain ⟨i, hi⟩ := mem_iff_getElem?.mp hal
  obtain ⟨j, hj⟩ := mem_iff_getElem?.mp hbl
  obtain rfl := index_eq_of_nodup_filterMap hn hi hj ha hb
  exact some.inj (hi.symm.trans hj)

/-- Where no key repeats, a search by the key of a record finds that record. -/
theorem find?_of_nodup_map [DecidableEq β] {f : α → β} (hn : (l.map f).Nodup) (ha : a ∈ l) :
    (l.find? fun b => f b = f a) = some a := by
  obtain ⟨b, hb⟩ : ∃ b, (l.find? fun b => f b = f a) = some b :=
    isSome_iff_exists.mp (find?_isSome.mpr ⟨a, ha, by simp⟩)
  have hkey : f b = f a := by simpa using find?_some hb
  rwa [inj_on_of_nodup_map hn (mem_of_find?_eq_some hb) ha hkey] at hb

/-- A scan that admits each record in turn accepts only grown logs, and its state follows `A`. -/
theorem grown_of_scan {step : σ → α → Except ε σ} (h₀ : A [] s₀)
    (hstep : ∀ {pre s r s'}, A pre s → step s r = .ok s' → E pre r ∧ A (pre ++ [r]) s') {s : σ}
    (h : l.foldlM step s₀ = .ok s) : Grown E l ∧ A l s := by
  induction l using List.reverseRecOn generalizing s with
  | nil =>
    obtain rfl : s₀ = s := by simpa using h
    exact ⟨grown_nil, h₀⟩
  | append_singleton l r ih =>
    rw [foldlM_append] at h
    obtain ⟨t, ht, hr⟩ := of_seq h
    obtain ⟨hg, ha⟩ := ih ht
    obtain ⟨u, hu, hs⟩ := of_seq hr
    obtain rfl : u = s := by simpa using hs
    obtain ⟨he, ha'⟩ := hstep ha hu
    exact ⟨grown_concat.mpr ⟨hg, he⟩, ha'⟩

/-- A scan each of whose steps succeeds from what the steps before it left succeeds, and its state follows `A`. -/
theorem scan_total {f : σ → α → Except ε σ} (h₀ : A [] s₀)
    (hstep : ∀ {pre r s}, pre ++ [r] <+: l → A pre s → ∃ s', f s r = .ok s' ∧ A (pre ++ [r]) s') :
    ∃ s, l.foldlM f s₀ = .ok s ∧ A l s := by
  induction l using List.reverseRecOn with
  | nil => exact ⟨s₀, rfl, h₀⟩
  | append_singleton l r ih =>
    obtain ⟨s, hs, ha⟩ := ih fun hp => hstep (hp.trans (prefix_append l [r]))
    obtain ⟨s', hs', ha'⟩ := hstep (prefix_refl _) ha
    refine ⟨s', ?_, ha'⟩
    rw [foldlM_append, hs, seq_ok, foldlM_cons, hs']
    rfl

/-! ## Streams -/

section Streams

variable [DecidableEq κ] (key : α → κ)

/-- The records of key `k`, in log order. -/
def stream (l : List α) (k : κ) : List α :=
  l.filter fun a => key a = k

@[simp] theorem stream_nil : stream key [] k = [] := rfl

theorem stream_append : stream key (l ++ l') k = stream key l k ++ stream key l' k :=
  filter_append l l'

theorem stream_concat_self (l : List α) (r : α) : stream key (l ++ [r]) (key r) = stream key l (key r) ++ [r] := by
  simp [stream]

variable {l : List α} {val : α → β}

theorem stream_concat_of_ne (h : key r ≠ k) : stream key (l ++ [r]) k = stream key l k := by
  simp [stream, h]

theorem mem_stream : a ∈ stream key l k ↔ a ∈ l ∧ key a = k := by
  simp [stream]

theorem stream_eq_nil : stream key l k = [] ↔ ∀ a ∈ l, key a ≠ k := by
  simp [stream]

/-- Where no key repeats, the stream of a record is that record. -/
theorem stream_eq_singleton (hn : (l.map key).Nodup) (ha : a ∈ l) : stream key l (key a) = [a] := by
  induction l with
  | nil => cases ha
  | cons b l ih =>
    rw [map_cons, nodup_cons] at hn
    rcases mem_cons.mp ha with rfl | ha
    · have hnil : stream key l (key a) = [] := (stream_eq_nil _).mpr fun q hq he => hn.1 (he ▸ mem_map_of_mem hq)
      rw [stream, filter_cons_of_pos (by simp)]
      exact congrArg _ hnil
    · have hne : key b ≠ key a := fun he => hn.1 (he ▸ mem_map_of_mem ha)
      rw [stream, filter_cons_of_neg (by simpa using hne)]
      exact ih hn.2 ha

theorem stream_prefix (h : l <+: l') : stream key l k <+: stream key l' k :=
  h.filter _

/-- The log up to and including a record of a stream carries the stream up to that record. -/
theorem exists_prefix_of_stream {pre : List α} (h : pre ++ [r] <+: stream key l k) :
    ∃ p, p ++ [r] <+: l ∧ key r = k ∧ stream key p k = pre := by
  induction l using List.reverseRecOn with
  | nil => simp at h
  | append_singleton l a ih =>
    by_cases ha : key a = k
    · subst ha
      rw [stream_concat_self] at h
      rcases prefix_concat_iff.mp h with heq | hlt
      · obtain ⟨rfl, rfl⟩ : pre = stream key l (key a) ∧ r = a := by simpa using heq
        exact ⟨l, prefix_refl _, rfl, rfl⟩
      · obtain ⟨p, hp, hk, hs⟩ := ih hlt
        exact ⟨p, hp.trans (prefix_append l [a]), hk, hs⟩
    · rw [stream_concat_of_ne key ha] at h
      obtain ⟨p, hp, hk, hs⟩ := ih h
      exact ⟨p, hp.trans (prefix_append l [a]), hk, hs⟩

/-- Admission that looks only at the record's own stream is admission within each stream. -/
theorem Grown.stream (h : Grown (fun pre r => E (stream key pre (key r)) r) l) (k : κ) : Grown E (stream key l k) := by
  intro pre r hr
  obtain ⟨p, hp, hk, hs⟩ := exists_prefix_of_stream key hr
  have he : E (Plico.stream key p (key r)) r := h p r hp
  rwa [hk, hs] at he

/-- A log whose streams are grown is grown by admission that looks only at the record's own stream. -/
theorem grown_of_streams (h : ∀ r ∈ l, Grown E (stream key l (key r))) :
    Grown (fun pre r => E (stream key pre (key r)) r) l := by
  intro pre r hr
  refine h r (hr.subset (by simp)) _ r ?_
  rw [← stream_concat_self]
  exact stream_prefix key hr

/-! ## The last record of each key -/

/-- The map a loop over the log leaves when it inserts `val a` under `key a`. -/
def index (val : α → β) (l : List α) : AList (fun _ : κ => β) :=
  l.foldl (fun m a => m.insert (key a) (val a)) ∅

theorem index_concat : index key val (l ++ [r]) = (index key val l).insert (key r) (val r) := by
  simp [index]

theorem lookup_index : (index key val l).lookup k = (stream key l k).getLast?.map val := by
  induction l using List.reverseRecOn with
  | nil => simp [index]
  | append_singleton l r ih =>
    rw [index_concat]
    by_cases hk : key r = k
    · subst hk
      rw [stream_concat_self]
      simp
    · rw [AList.lookup_insert_ne (Ne.symm hk), stream_concat_of_ne key hk, ih]

theorem mem_index : k ∈ index key val l ↔ ∃ a ∈ l, key a = k := by
  rw [← AList.lookup_isSome, lookup_index, isSome_map, isSome_iff_ne_none, ne_eq, getLast?_eq_none_iff, stream_eq_nil]
  simp

/-- When no key occurs twice, the map holds exactly the records. -/
theorem lookup_index_of_nodup (hn : (l.map key).Nodup) {v : β} :
    (index key val l).lookup k = some v ↔ ∃ a ∈ l, key a = k ∧ val a = v := by
  rw [lookup_index, map_eq_some_iff]
  constructor
  · rintro ⟨a, hlast, rfl⟩
    obtain ⟨ha, rfl⟩ := (mem_stream key).mp (mem_of_getLast? hlast)
    exact ⟨a, ha, rfl, rfl⟩
  · rintro ⟨a, ha, rfl, rfl⟩
    have hmem : a ∈ stream key l (key a) := (mem_stream key).mpr ⟨ha, rfl⟩
    obtain ⟨b, hlast⟩ := getLast?_isSome.mpr (ne_nil_of_mem hmem) |> isSome_iff_exists.mp
    obtain ⟨hb, hkey⟩ := (mem_stream key).mp (mem_of_getLast? hlast)
    exact ⟨b, hlast, congrArg val (inj_on_of_nodup_map hn hb ha hkey)⟩

end Streams

/-! ## Stretches of a sorted log -/

/-- The records of a log whose numbers lie in a range. -/
def within (num : α → Nat) (start stop : Nat) (l : List α) : List α :=
  l.filter fun a => start ≤ num a ∧ num a < stop

theorem within_append (hl : l.Pairwise fun a b => num a < num b) {k : Nat} (hij : i ≤ j)
    (hjk : j ≤ k) : within num i j l ++ within num j k l = within num i k l := by
  induction l with
  | nil => rfl
  | cons a l ih =>
    obtain ⟨hlater, hl⟩ := pairwise_cons.mp hl
    specialize ih hl
    unfold within at ih ⊢
    by_cases haj : num a < j
    · have hak : num a < k := Nat.lt_of_lt_of_le haj hjk
      have hnot : ¬ j ≤ num a := Nat.not_le.mpr haj
      simp only [filter_cons, haj, hak, hnot, and_true, decide_false, Bool.false_eq_true, if_false]
      split
      · rw [cons_append, ih]
      · exact ih
    · -- every record from here on is in the second range
      have hnone : l.filter (fun b => decide (i ≤ num b ∧ num b < j)) = [] := by
        refine filter_eq_nil_iff.mpr fun b hb => ?_
        have := hlater b hb
        simp only [decide_eq_true_eq]
        omega
      have hja : j ≤ num a := Nat.not_lt.mp haj
      have hia : i ≤ num a := Nat.le_trans hij hja
      rw [hnone, nil_append] at ih
      simp only [filter_cons, haj, hja, hia, true_and, decide_false, Bool.false_eq_true, if_false, hnone,
        nil_append, ih]

theorem within_append_of_le (h : ∀ a ∈ l', j ≤ num a) : within num i j (l ++ l') = within num i j l := by
  have hnone : within num i j l' = [] := by
    refine filter_eq_nil_iff.mpr fun a ha => ?_
    have := h a ha
    simp only [decide_eq_true_eq]
    omega
  unfold within at hnone ⊢
  rw [filter_append, hnone, append_nil]

/-! ## Numbered records -/

/-- Two numbers with one decimal text are one number. -/
theorem toString_inj {m : Nat} (h : toString m = toString n) : m = n := by
  have hdigits := congrArg String.toList h
  rw [show (toString m).toList = Nat.toDigits 10 m from Nat.toList_repr,
    show (toString n).toList = Nat.toDigits 10 n from Nat.toList_repr] at hdigits
  rw [← Nat.ofDigitChars_ten_toDigits (n := m), hdigits, Nat.ofDigitChars_ten_toDigits]

/-- The records `f a n` of a list, numbered from `n + 1`. -/
def numbered (f : α → Nat → β) (n : Nat) : List α → List β
  | [] => []
  | a :: l => f a (n + 1) :: numbered f (n + 1) l

section

variable {f : α → Nat → β}

@[simp] theorem numbered_nil : numbered f n [] = [] := rfl

@[simp] theorem numbered_cons :
    numbered f n (a :: l) = f a (n + 1) :: numbered f (n + 1) l := rfl

@[simp] theorem length_numbered : (numbered f n l).length = l.length := by
  induction l generalizing n with
  | nil => rfl
  | cons a l ih => simp [ih]

theorem numbered_append (n : Nat) (l l' : List α) :
    numbered f n (l ++ l') = numbered f n l ++ numbered f (n + l.length) l' := by
  induction l generalizing n with
  | nil => rfl
  | cons a l ih =>
    rw [cons_append, numbered_cons, ih, length_cons]
    congr 3
    omega

variable {l : List α} {g : β → γ} {g' : α → γ}

theorem mem_numbered {b : β} (h : b ∈ numbered f n l) : ∃ a ∈ l, ∃ m, n < m ∧ m ≤ n + l.length ∧ b = f a m := by
  induction l generalizing n with
  | nil => cases h
  | cons a l ih =>
    rcases mem_cons.mp h with rfl | h
    · exact ⟨a, by simp, n + 1, by omega, by simp, rfl⟩
    · obtain ⟨a', ha, m, hn, hm, rfl⟩ := ih h
      exact ⟨a', by simp [ha], m, by omega, by simp only [length_cons]; omega, rfl⟩

theorem exists_mem_numbered (h : a ∈ l) : ∃ m, f a m ∈ numbered f n l := by
  induction l generalizing n with
  | nil => cases h
  | cons b l ih =>
    rcases mem_cons.mp h with rfl | h
    · exact ⟨n + 1, by simp⟩
    · obtain ⟨m, hm⟩ := ih (n := n + 1) h
      exact ⟨m, by simp [hm]⟩

/-- What does not depend on the number. -/
theorem map_numbered (h : ∀ a m, g (f a m) = g' a) : (numbered f n l).map g = l.map g' := by
  induction l generalizing n with
  | nil => rfl
  | cons a l ih => rw [numbered_cons, map_cons, h, ih, map_cons]

theorem map_filter_numbered {p : β → Bool} {q : α → Bool} (hp : ∀ a m, p (f a m) = q a)
    (hg : ∀ a m, g (f a m) = g' a) (n : Nat) (l : List α) :
    ((numbered f n l).filter p).map g = (l.filter q).map g' := by
  induction l generalizing n with
  | nil => rfl
  | cons a l ih =>
    rw [numbered_cons, filter_cons, filter_cons, hp]
    split
    · rw [map_cons, map_cons, hg, ih]
    · exact ih _

theorem isChain_numbered {R : β → β → Prop} (h : l.IsChain fun a b => ∀ m, R (f a m) (f b (m + 1))) (n : Nat) :
    (numbered f n l).IsChain R := by
  induction l generalizing n with
  | nil => simp
  | cons a l ih =>
    cases l with
    | nil => simp
    | cons b l =>
      rw [isChain_cons_cons] at h
      rw [numbered_cons, numbered_cons, isChain_cons_cons]
      exact ⟨h.1 (n + 1), ih h.2 (n + 1)⟩

theorem pairwise_numbered {num : β → Nat} (h : ∀ a m, num (f a m) = m) (n : Nat) (l : List α) :
    (numbered f n l).Pairwise fun a b => num a < num b := by
  induction l generalizing n with
  | nil => exact List.Pairwise.nil
  | cons a l ih =>
    refine pairwise_cons.mpr ⟨fun b hb => ?_, ih (n + 1)⟩
    obtain ⟨a', -, m, hlt, -, rfl⟩ := mem_numbered hb
    rw [h, h]
    exact hlt

/-- A value that tells the numbers apart does not repeat. -/
theorem nodup_map_numbered
    (h : ∀ a ∈ l, ∀ b ∈ l, ∀ i j, n < i → i ≤ n + l.length → n < j → j ≤ n + l.length → g (f a i) = g (f b j) → i = j) :
    ((numbered f n l).map g).Nodup := by
  induction l generalizing n with
  | nil => simp
  | cons a l ih =>
    simp only [length_cons] at h
    rw [numbered_cons, map_cons, nodup_cons]
    refine ⟨fun hmem => ?_, ih fun b hb c hc i j hi hi' hj hj' => h b (by simp [hb]) c (by simp [hc]) i j
      (by omega) (by omega) (by omega) (by omega)⟩
    obtain ⟨r, hr, he⟩ := mem_map.mp hmem
    obtain ⟨b, hb, m, hn, hm, rfl⟩ := mem_numbered hr
    have := h b (by simp [hb]) a (by simp) m (n + 1) (by omega) (by omega) (by omega) (by omega) he
    omega

/-- Records that are written block by block, each block under its own key: the stream of a key is its block. -/
theorem stream_numbered_flatMap {δ : Type} [DecidableEq κ] (key : β → κ) {block : δ → List α} (k : δ → κ)
    (hkey : ∀ d, ∀ a ∈ block d, ∀ m, key (f a m) = k d) {l : List δ} (hn : (l.map k).Nodup) {d : δ} (hd : d ∈ l)
    (n : Nat) : ∃ m, stream key (numbered f n (l.flatMap block)) (k d) = numbered f m (block d) := by
  obtain ⟨pre, post, rfl⟩ := append_of_mem hd
  have hother : ∀ (l' : List δ) (i : Nat), k d ∉ l'.map k →
      stream key (numbered f i (l'.flatMap block)) (k d) = [] := by
    refine fun l' i hnot => (stream_eq_nil key).mpr fun b hb he => hnot ?_
    obtain ⟨a, ha, m, -, -, rfl⟩ := mem_numbered hb
    obtain ⟨c, hc, ha⟩ := mem_flatMap.mp ha
    exact mem_map.mpr ⟨c, hc, (hkey c a ha m).symm.trans he⟩
  have hself : ∀ i, stream key (numbered f i (block d)) (k d) = numbered f i (block d) := by
    refine fun i => filter_eq_self.mpr fun b hb => ?_
    obtain ⟨a, ha, m, -, -, rfl⟩ := mem_numbered hb
    exact decide_eq_true (hkey d a ha m)
  rw [map_append, map_cons, nodup_append, nodup_cons] at hn
  refine ⟨n + (pre.flatMap block).length, ?_⟩
  rw [flatMap_append, flatMap_cons, numbered_append, numbered_append, stream_append, stream_append, hself,
    hother pre _ fun h => hn.2.2 _ h _ (by simp) rfl, hother post _ hn.2.1.1, nil_append, append_nil]

/-- Numbered records grow by what each one does after those before it. -/
theorem grown_numbered {E : List β → β → Prop}
    (h : ∀ pre a, pre ++ [a] <+: l → E (numbered f 0 pre) (f a (pre.length + 1))) : Grown E (numbered f 0 l) := by
  induction l using List.reverseRecOn with
  | nil => exact grown_nil
  | append_singleton l a ih =>
    rw [numbered_append, Nat.zero_add]
    exact grown_concat.mpr ⟨ih fun pre b hb => h pre b (hb.trans (prefix_append l [a])), h l a (prefix_refl _)⟩

end

end Plico
