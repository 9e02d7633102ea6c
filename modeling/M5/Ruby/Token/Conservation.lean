import M5.Ruby.Token.DirCount
import M5.Ruby.Token.L1Count
import M5.Ruby.Token.L2Count

/-!
# MOESI_CMP_token: tokens are conserved

The three machines keep the tokens, whatever the order of messages, timeouts, persistent requests, replacements and DMA
requests.
-/

namespace M5.Ruby.Token

open M5.Lib

variable {n : Nat} {p : Params}

/-! ## Steps -/

section steps

variable {s s' : Block n} {i : Fin n} {q : State}

theorem L1.getState_table {l : L1 n} {t : PersistentTable n} (h : getState { l with persistentTable := t } i = .ok q)
    (hr : q.readable) : l.getState i = .ok q := by
  obtain ⟨hb, hq⟩ := of_ensure h
  refine ensure_bind_eq_ok.2 ⟨hb, ?_⟩
  cases ht : l.tbe with
  | some _ => simpa only [ht] using hq
  | none =>
    cases he : l.dcache.or l.icache with
    | some e => simpa only [ht, he] using hq
    | none =>
      obtain ⟨hd, hi⟩ := Option.or_eq_none_iff.1 he
      rcases getState_of_none (l := { l with persistentTable := t }) hd hi ht h with rfl | rfl <;> cases hr

theorem L1.Counted.arrange {l : L1 n} (h : l.Counted p i) (t : PersistentTable n) :
    Counted p i { l with persistentTable := t } :=
  ⟨fun hq hr => h.readable (getState_table hq hr) hr,
    fun hq hx => h.exclusive (getState_table hq (readable_of_exclusive hx)) hx⟩

theorem L2.Counted.arrange {l : L2 n} (h : l.Counted p) (t : PersistentTable n) :
    Counted p { l with persistentTable := t } := by
  rcases Option.eq_none_or_eq_some l.entry with he | ⟨e, he⟩
  case inr =>
    have hq : getState { l with persistentTable := t } = l.getState := by simp only [getState, he]
    exact ⟨fun hr => h.readable (hq ▸ hr), fun hr => h.exclusive (hq ▸ hr), fun hr => h.empty (hq ▸ hr)⟩
  case inl =>
    have hk : getTokens { l with persistentTable := t } = 0 := by simp only [getTokens, he]
    rcases getState_of_none (l := { l with persistentTable := t }) he with hq | hq
    all_goals
      refine ⟨fun hr => ?_, fun hr => ?_, fun _ => hk⟩
      · rw [hq] at hr
        cases hr
      · rw [hq] at hr
        cases hr

theorem Block.Conserved.arrange (h : s.Conserved p) (ha : s.Arrange s') : s'.Conserved p := by
  obtain ⟨t2, h2⟩ := ha.l2
  obtain ⟨t3, h3⟩ := ha.dir
  have h1 : ∀ i, (s'.l1 i).dcache = (s.l1 i).dcache ∧ (s'.l1 i).icache = (s.l1 i).icache := by
    intro i
    obtain ⟨t, ht⟩ := ha.l1 i
    rw [ht]
    exact ⟨rfl, rfl⟩
  have hk2 : s'.l2.getTokens = s.l2.getTokens := by rw [h2]; rfl
  have hk3 : s'.dir.tokens = s.dir.tokens := by rw [h3]
  refine ⟨?_, ⟨?_, ?_, hk2 ▸ h.nonneg.l2, hk3 ▸ h.nonneg.dir, ?_⟩, ?_, ?_, ?_⟩
  · rw [← h.total]
    simp only [weigh, tokens_l1, L1.tokens, tokens_l2, tokens_dir, (h1 _).1, (h1 _).2, hk2, hk3,
      (ha.responses.map tokens.msg).sum_eq]
  · intro i
    rw [(h1 i).1]
    exact h.nonneg.dcache i
  · intro i
    rw [(h1 i).2]
    exact h.nonneg.icache i
  · exact fun m hm => h.nonneg.response m (ha.responses.mem_iff.1 hm)
  · intro i
    obtain ⟨t, ht⟩ := ha.l1 i
    rw [ht]
    exact (h.l1 i).arrange t
  · rw [h2]
    exact h.l2.arrange t2
  · rw [h3]
    exact h.dir

/-- No step makes or loses tokens. -/
theorem Block.Conserved.handle {l : Label n} (hN : 1 ≤ p.nTokens) (h : s.Conserved p) (hs : s.handle p l = .ok s') :
    s'.Conserved p := by
  rcases handle_cases hs with ha | ⟨m, -⟩ | ⟨i, src, write, ha, ho, -, ht⟩ | ⟨src, ha, ho, -, ht⟩ | ⟨src, ha, ho, ht⟩
  · exact h.arrange ha
  · exact ⟨h.total, ⟨h.nonneg.dcache, h.nonneg.icache, h.nonneg.l2, h.nonneg.dir, h.nonneg.response⟩, h.l1, h.l2, h.dir⟩
  · exact L1.conserved_trigger hN (h.arrange ha) ho ht
  · exact L2.conserved_trigger hN (h.arrange ha) ho ht
  · exact Dir.conserved_trigger (h.arrange ha) ho ht

theorem Block.Conserved.init (hp : 0 < p.maxTokens) (d : DataBlock) : (Block.init (n := n) p d).Conserved p := by
  have hn : (Block.init (n := n) p d).Nonneg :=
    ⟨fun _ => Int.le_refl 0, fun _ => Int.le_refl 0, Int.le_refl 0, hp.le, fun _ h => absurd h List.not_mem_nil⟩
  have h2 : (Block.init (n := n) p d).l2.Counted p := ⟨nofun, nofun, fun _ => rfl⟩
  refine ⟨?_, hn, fun i => ⟨?_, ?_⟩, h2, fun _ => hp⟩
  · simp [weigh, Block.init, tokens, L1.tokens, L2.getTokens]
  · intro q hq hr
    rcases L1.getState_of_none rfl rfl rfl hq with rfl | rfl <;> cases hr
  · intro q hq hr
    rcases L1.getState_of_none rfl rfl rfl hq with rfl | rfl <;> cases hr

end steps

/-- In every state that is reached each block has all its tokens, no count is negative, and an L1 cache in `MM` or
`MM_W` has all tokens: then no other machine has a readable copy. -/
theorem System.tokens_conserved {d : Nat → DataBlock} {s : System n} {ls : List (Nat × Label n)} (hN : 1 ≤ p.nTokens)
    (hp : 0 < p.maxTokens) (h : Run (Step p) (init p d) ls s) (a : Nat) :
    ∑ i, (s.blocks a |>.l1 i).tokens + (s.blocks a).l2.getTokens + (s.blocks a).dir.tokens +
        ((s.blocks a).responses.map (·.tokens)).sum = p.maxTokens ∧
      (s.blocks a).Nonneg ∧
      ∀ i, ((s.blocks a).l1 i).getState i ∈ [.ok .MM, .ok .MM_W] →
        ((s.blocks a).l1 i).tokens = p.maxTokens ∧
        (∀ j, j ≠ i → ∀ q, ((s.blocks a).l1 j).getState j = .ok q → q.readable = false) ∧
        (s.blocks a).l2.getState.readable = false ∧ (s.blocks a).dir.getState ≠ .O ∧
        ∀ m ∈ (s.blocks a).responses, m.tokens = 0 := by
  have hc : (s.blocks a).Conserved p :=
    invariant (I := fun _ b => b.Conserved p) h (fun _ => .init hp _)
      (fun _ _ _ _ hb => ⟨hb.total, ⟨hb.nonneg.dcache, hb.nonneg.icache, hb.nonneg.l2, hb.nonneg.dir,
        hb.nonneg.response⟩, hb.l1, hb.l2, hb.dir⟩)
      (fun _ _ _ _ hb hs => hb.handle hN hs) a
  generalize s.blocks a = b at hc
  refine ⟨hc.total, hc.nonneg, fun i hi => ?_⟩
  have hk : (b.l1 i).getTokens = p.maxTokens := by
    rcases List.mem_pair.1 hi with hi | hi <;> exact (hc.l1 i).exclusive hi rfl
  have hle : (b.l1 i).getTokens ≤ (b.l1 i).tokens := hc.nonneg.getTokens_le i
  obtain ⟨h1, h2, h3, h4⟩ := hc.nonneg.alone (k := .L1Cache i) (by rw [hc.total]; exact hk ▸ hle)
  refine ⟨?_, fun j hj q hq => ?_, ?_, ?_, h4⟩
  · have := hc.nonneg.l1_le i
    rw [hc.total] at this
    omega
  · refine Bool.eq_false_iff.2 fun hr => ?_
    have := (hc.l1 j).readable hq hr
    have := hc.nonneg.getTokens_le j
    have := h1 j fun he => hj (MachineID.L1Cache.inj he)
    omega
  · refine Bool.eq_false_iff.2 fun hr => ?_
    have := hc.l2.readable hr
    have := h2 nofun
    omega
  · intro hO
    have := hc.dir hO
    have := h3 nofun
    omega

/-- One of two caches stores to a block of three tokens, and then it has them all. -/
theorem System.tokens_conserved_store : ∃ (s : System 2) (ls : List (Nat × Label 2)),
    Run (Step { maxTokens := 3, nTokens := 2 }) (init { maxTokens := 3, nTokens := 2 } fun _ _ => 0) ls s ∧
    ((s.blocks 0).l1 0).getState 0 = .ok .MM_W ∧ ((s.blocks 0).l1 0).tokens = 3 := by
  let ls : List (Label 2) := [.mandatory 0 .ST true fun _ _ => 1, .request 0, .globalRequest 0, .memory 0,
    .response 0 true fun _ _ => 1]
  obtain ⟨b, hb, hc⟩ := Run.exists_of_check (Block.handle { maxTokens := 3, nTokens := 2 }) id
    (.init { maxTokens := 3, nTokens := 2 } fun _ => 0) ls
    (fun b => ((b.l1 0).getState 0).toOption = some .MM_W) (by decide +kernel)
  have hq : (b.l1 0).getState 0 = .ok .MM_W := by
    cases h : (b.l1 0).getState 0 <;> simp_all [Except.toOption]
  have hr := run_of_block (d := fun _ _ => 0) (a := 0) hb
  have h := (tokens_conserved (by decide) (by decide) hr 0).2.2 0 (List.mem_pair.2 (.inr hq))
  exact ⟨_, _, hr, hq, h.1⟩

end M5.Ruby.Token
