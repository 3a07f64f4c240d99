import Nynn.Daemon.Node

/-!
# The ledger of a host

The tokens of a host are in linear custody. The place of a token tells how many are attached to its
segment, whether the segment is marked, and how far its message has come: it waits for the socket of
a link, or for a hose, or a call of `effuse` has it. A message goes forward only, so that it is
pushed on one queue of a link or of a hose, once, and is returned once. The contents of a segment
stay as they are.

Source: as for `Nynn.Daemon.Node`.

## Main definitions

* `Nynn.Holdings.AtPlace`: what the place of a token tells.
* `Nynn.Holdings.Kept`: the ledger.

## Main results

* `Nynn.Node.Invariant.step`: every step keeps the ledger, and what the threads have at hand.
-/

namespace Nynn

open Custody

namespace TokenPlace

variable {C K : Type}

/-- How far the message has come: it is on its way to a queue, in the queue of a link and behind it,
in the queue of a hose, or with a call of `effuse`. -/
def stage : TokenPlace C K → ℕ
  | .inl (.filling _) | .inl (.unsent _) | .inl (.wsocket _) | .inl (.attached _)
  | .inl (.found _) | .inl (.released _) | .inl (.attachedRemote _) => 0
  | .inl (.wqueue _) | .inl .writing | .inl .delaycleaned => 1
  | .inr _ => 2
  | .inl (.popped _) | .inl (.rsocket _) | .inl (.received _) | .inl (.reading _) => 3

/-- Only messages of `infuse` come here. -/
def ofInfuse : TokenPlace C K → Bool
  | .inl (.filling _) | .inl (.unsent _) | .inl (.wsocket _) | .inl (.attachedRemote _)
  | .inl (.wqueue _) | .inl .writing | .inl .delaycleaned => true
  | _ => false

/-- The thread has looked the queue of the hose up. -/
def lookedUp : TokenPlace C K → Bool
  | .inl (.found _) | .inl (.released _) => true
  | _ => false

/-- A message may go from `p` to `q`. -/
def leads (p q : TokenPlace C K) : Bool :=
  p.stage ≤ q.stage && (p.stage ≠ 1 || q.stage = 1) && (!q.ofInfuse || p.ofInfuse)

theorem stage_le {p q : TokenPlace C K} (h : p.leads q = true) : p.stage ≤ q.stage := by
  simp only [leads, Bool.and_eq_true, decide_eq_true_eq] at h
  exact h.1.1

theorem stage_eq_one {p q : TokenPlace C K} (h : p.leads q = true) (hp : p.stage = 1) :
    q.stage = 1 := by
  simp only [leads, Bool.and_eq_true, Bool.or_eq_true, decide_eq_true_eq] at h
  exact h.1.2.resolve_left (not_not_intro hp)

theorem ofInfuse_of_leads {p q : TokenPlace C K} (h : p.leads q = true) (hq : q.ofInfuse = true) :
    p.ofInfuse = true := by
  simp only [leads, Bool.and_eq_true, hq, Bool.not_true, Bool.false_or] at h
  exact h.2

theorem stage_le_three (p : TokenPlace C K) : p.stage ≤ 3 := by
  cases p with
  | inl v => cases v <;> simp [stage]
  | inr q => simp [stage]

end TokenPlace

namespace SharedMemory

variable {shm shm' : SharedMemory} {a n : ℕ} {b : Bool}

/-- Only `nattch` and `marked` change, at one segment. -/
structure ChangesAt (shm shm' : SharedMemory) (a nattch : ℕ) (marked : Bool) : Prop where
  made : shm'.made = shm.made
  contents : shm'.contents = shm.contents
  nattch : shm'.nattch a = nattch
  marked : shm'.marked a = marked
  nattch_of_ne : ∀ i ≠ a, shm'.nattch i = shm.nattch i
  marked_of_ne : ∀ i ≠ a, shm'.marked i = shm.marked i

theorem ChangesAt.refl (hn : shm.nattch a = n) (hb : shm.marked a = b) :
    shm.ChangesAt shm a n b :=
  ⟨rfl, rfl, hn, hb, fun _ _ => rfl, fun _ _ => rfl⟩

theorem ChangesAt.shmdt (hn : shm.nattch a = n + 1) (hb : shm.marked a = b) :
    shm.ChangesAt (shm.shmdt a) a n b :=
  ⟨rfl, rfl, (Function.update_self ..).trans (by rw [hn]; rfl), hb,
    fun _ hi => Function.update_of_ne hi .., fun _ _ => rfl⟩

theorem ChangesAt.shmat (hexists : shm.Exists a) (hn : shm.nattch a = n) (hb : shm.marked a = b) :
    shm.ChangesAt (shm.shmat a) a (n + 1) b := by
  refine ⟨rfl, rfl, ?_, hb, fun i hi => ?_, fun _ _ => rfl⟩
  · rw [SharedMemory.shmat]
    dsimp only
    rw [if_pos hexists, Function.update_self, hn]
  · rw [SharedMemory.shmat]
    dsimp only
    rw [if_pos hexists, Function.update_of_ne hi]

theorem ChangesAt.rmid (h : shm.ChangesAt shm' a n b) : shm.ChangesAt (shm'.rmid a) a n true :=
  ⟨h.made, h.contents, h.nattch, Function.update_self .., h.nattch_of_ne,
    fun i hi => (Function.update_of_ne hi ..).trans (h.marked_of_ne i hi)⟩

end SharedMemory

namespace Holdings

variable {C K : Type} {s s' : Holdings C K}

/-- What the place `p` of a token tells about its segment. -/
structure AtPlace (s : Holdings C K) (p : TokenPlace C K) (i : ℕ) : Prop where
  made : i < s.shm.made
  nattch : s.shm.nattch i = p.nattch
  marked : s.shm.marked i = p.marked
  infused : p.ofInfuse = true → (s.history.infused i).isSome
  lookedUp : p.lookedUp = true → ∀ q, s.rqueue i = some q →
    s.hosemap (msghdrMsgid (s.shm.contents i)) = some q
  pushed : ∀ j, i ∈ s.history.pushed j → p.stage = 1
  reached : ∀ q, i ∈ s.history.reached q → 2 ≤ p.stage
  popped : ∀ q, i ∈ s.history.popped q → p.stage = 3
  effused : s.history.effused i = none

/-- The ledger. -/
structure Kept (s : Holdings C K) : Prop where
  linear : Linear NynnToken.shmid s.tokens
  place : ∀ p i, At NynnToken.shmid s.tokens p i → s.AtPlace p i
  sized : ∀ p, ∀ t ∈ s.tokens p, ∀ m, s.history.infused t.shmid = some m →
    t.size = 64 + m.msgbdy.length
  unmade : ∀ i, s.shm.made ≤ i → s.shm.marked i = false
  infused : ∀ i m, s.history.infused i = some m →
    i < s.shm.made ∧ 64 + m.msgbdy.length < 2 ^ 64 ∧ s.shm.contents i = m.bytes
  taken : ∀ l, ∀ i ∈ s.history.taken l, i < s.shm.made
  origin : ∀ i < s.shm.made, (s.history.infused i).isSome ∨ ∃ l, i ∈ s.history.taken l
  hosemap : ∀ msgid q, s.hosemap msgid = some q →
    q < s.hosesMade ∧ ∀ msgid', s.hosemap msgid' = some q → msgid' = msgid
  pushed : ∀ j, (s.history.pushed j).Nodup ∧
    ∀ i ∈ s.history.pushed j, i < s.shm.made ∧ (s.history.infused i).isSome
  reached : ∀ q, (s.history.reached q).Nodup ∧ ∀ i ∈ s.history.reached q,
    i < s.shm.made ∧ s.hosemap (msghdrMsgid (s.shm.contents i)) = some q
  popped : ∀ q, ∀ i ∈ s.history.popped q, i < s.shm.made ∧
    (s.history.effused i = none → ∃ p : TokenPlace C K,
      p.stage = 3 ∧ At NynnToken.shmid s.tokens p i)
  effused : ∀ i r, s.history.effused i = some r →
    i < s.shm.made ∧ effuseCopy (s.shm.contents i) = some r
  once : ∀ i j, i ∈ s.history.pushed j →
    (∀ j', i ∈ s.history.pushed j' → j' = j) ∧ ∀ q, i ∉ s.history.reached q

/-- A token goes from a place to another one, or is gone. -/
structure Handed (s s' : Holdings C K) (a : ℕ) (source : TokenPlace C K)
    (target : Option (TokenPlace C K)) : Prop where
  tokens : HandsOver NynnToken.shmid s.tokens s'.tokens a (some source) target
  held : At NynnToken.shmid s.tokens source a
  mem : ∀ p, ∀ t ∈ s'.tokens p, ∃ p', t ∈ s.tokens p'
  made : s'.shm.made = s.shm.made
  contents : s'.shm.contents = s.shm.contents
  others : ∀ i ≠ a, s'.shm.nattch i = s.shm.nattch i ∧ s'.shm.marked i = s.shm.marked i ∧
    s'.rqueue i = s.rqueue i ∧ s'.history.effused i = s.history.effused i
  hoses : s'.hosemap = s.hosemap ∧ s'.hosesMade = s.hosesMade
  history : s'.history.infused = s.history.infused ∧ s'.history.pushed = s.history.pushed ∧
    s'.history.taken = s.history.taken ∧ s'.history.reached = s.history.reached ∧
      s'.history.popped = s.history.popped
  at_target : ∀ p, target = some p → source.leads p = true ∧ s'.shm.nattch a = p.nattch ∧
    s'.shm.marked a = p.marked ∧ s'.history.effused a = none ∧
      (p.lookedUp = true → ∀ q, s'.rqueue a = some q →
        s.hosemap (msghdrMsgid (s.shm.contents a)) = some q)
  gone : target = none → s'.history.effused a = none → source.stage ≠ 3
  effused : ∀ r, s'.history.effused a = some r → effuseCopy (s.shm.contents a) = some r

namespace Kept

/-- **Handing over.** A step that hands a token over keeps the ledger. -/
theorem handed (h : s.Kept) {a : ℕ} {source : TokenPlace C K} {target : Option (TokenPlace C K)}
    (hstep : Handed s s' a source target) : s'.Kept := by
  obtain ⟨hinfused, hpushed, htaken, hreached, hpopped⟩ := hstep.history
  obtain ⟨hhosemap, hhosesMade⟩ := hstep.hoses
  have ha := h.place source a hstep.held
  refine ⟨hstep.tokens.linear, ?_, ?_, ?_, ?_, ?_, ?_, ?_, ?_, ?_, ?_, ?_, ?_⟩
  · refine hstep.tokens.forall_at h.place (fun p i hi hp => ?_) fun p hp => ?_
    · obtain ⟨hn, hm, hr, he⟩ := hstep.others i hi
      exact ⟨hstep.made ▸ hp.made, hn.trans hp.nattch, hm.trans hp.marked,
        hinfused ▸ hp.infused, by rw [hr, hhosemap, hstep.contents]; exact hp.lookedUp,
        hpushed ▸ hp.pushed, hreached ▸ hp.reached, hpopped ▸ hp.popped, he.trans hp.effused⟩
    · obtain ⟨hleads, hn, hm, he, hlooked⟩ := hstep.at_target p hp
      refine ⟨hstep.made ▸ ha.made, hn, hm,
        fun hi => hinfused ▸ ha.infused (TokenPlace.ofInfuse_of_leads hleads hi),
        by rw [hhosemap, hstep.contents]; exact hlooked, fun j hj => ?_, fun q hq => ?_,
        fun q hq => ?_, he⟩
      · exact TokenPlace.stage_eq_one hleads (ha.pushed j (hpushed ▸ hj))
      · exact (ha.reached q (hreached ▸ hq)).trans (TokenPlace.stage_le hleads)
      · have hle := TokenPlace.stage_le hleads
        rw [ha.popped q (hpopped ▸ hq)] at hle
        exact le_antisymm p.stage_le_three hle
  · intro p t ht
    obtain ⟨p', ht'⟩ := hstep.mem p t ht
    rw [hinfused]
    exact h.sized p' t ht'
  · intro i hi
    have hlt := ha.made
    rw [hstep.made] at hi
    rw [(hstep.others i (by omega)).2.1]
    exact h.unmade i hi
  · rw [hinfused, hstep.made, hstep.contents]
    exact h.infused
  · rw [htaken, hstep.made]
    exact h.taken
  · rw [hinfused, htaken, hstep.made]
    exact h.origin
  · rw [hhosemap, hhosesMade]
    exact h.hosemap
  · rw [hpushed, hinfused, hstep.made]
    exact h.pushed
  · rw [hreached, hhosemap, hstep.made, hstep.contents]
    exact h.reached
  · rw [hpopped, hstep.made]
    refine fun q i hi => ⟨(h.popped q i hi).1, fun he => ?_⟩
    by_cases hia : i = a
    · subst hia
      have hstage := ha.popped q hi
      cases htarget : target with
      | none => exact absurd hstage (hstep.gone htarget he)
      | some p =>
        have hle := TokenPlace.stage_le (hstep.at_target p htarget).1
        rw [hstage] at hle
        exact ⟨p, le_antisymm p.stage_le_three hle,
          (hstep.tokens.at_iff p i).mpr (Or.inr ⟨rfl, htarget⟩)⟩
    · rw [(hstep.others i hia).2.2.2] at he
      obtain ⟨p, hstage, hp⟩ := (h.popped q i hi).2 he
      exact ⟨p, hstage, (hstep.tokens.at_iff p i).mpr (Or.inl ⟨hp, hia⟩)⟩
  · intro i r hr
    rw [hstep.made, hstep.contents]
    by_cases hia : i = a
    · subst hia
      exact ⟨ha.made, hstep.effused r hr⟩
    · rw [(hstep.others i hia).2.2.2] at hr
      exact h.effused i r hr
  · rw [hpushed, hreached]
    exact h.once

/-! ### Ways to hand a token over -/

section Ways

variable [DecidableEq C] [DecidableEq K] {t : NynnToken} {ts : List NynnToken}
  {p q : TokenPlace C K} {shm : SharedMemory}

/-- A token goes from a place to another one. -/
theorem moved {rqueue : ℕ → Option ℕ} (h : s.Kept) (hp : s.tokens p = t :: ts)
    (hshm : s.shm.ChangesAt shm t.shmid q.nattch q.marked) (hleads : p.leads q = true)
    (hrqueue : ∀ i ≠ t.shmid, rqueue i = s.rqueue i)
    (hlooked : q.lookedUp = true → ∀ n, rqueue t.shmid = some n →
      s.hosemap (msghdrMsgid (s.shm.contents t.shmid)) = some n) :
    Kept { s with
      shm := shm
      tokens := Custody.put (Custody.take s.tokens p) q t
      rqueue := rqueue } := by
  have hat : At NynnToken.shmid s.tokens p t.shmid := at_head hp
  have hnone := (h.place p _ hat).effused
  refine h.handed ⟨.moved h.linear hp, hat, fun r t' ht' => ?_, hshm.made, hshm.contents,
    fun i hi => ⟨hshm.nattch_of_ne i hi, hshm.marked_of_ne i hi, hrqueue i hi, rfl⟩, ⟨rfl, rfl⟩,
    ⟨rfl, rfl, rfl, rfl, rfl⟩, ?_, fun hgone => ?_, fun r hr => ?_⟩
  · rcases mem_put.mp ht' with ht' | ⟨-, rfl⟩
    · exact ⟨r, mem_of_mem_take ht'⟩
    · exact ⟨p, hp ▸ List.mem_cons_self⟩
  · rintro _ ⟨⟩
    exact ⟨hleads, hshm.nattch, hshm.marked, hnone, hlooked⟩
  · cases hgone
  · cases hnone.symm.trans hr

/-- A token goes on, and the thread has looked the queue up if it had before. -/
theorem move (h : s.Kept) (hp : s.tokens p = t :: ts)
    (hshm : s.shm.ChangesAt shm t.shmid q.nattch q.marked) (hleads : p.leads q = true)
    (hlooked : q.lookedUp = true → p.lookedUp = true) : ((s.setShm shm).move p q t).Kept :=
  h.moved hp hshm hleads (fun _ _ => rfl) fun hq => (h.place p _ (at_head hp)).lookedUp (hlooked hq)

/-- A token goes on, and its segment stays as it is. -/
theorem pass (h : s.Kept) (hp : s.tokens p = t :: ts)
    (hshm : q.nattch = p.nattch ∧ q.marked = p.marked) (hleads : p.leads q = true)
    (hlooked : q.lookedUp = true → p.lookedUp = true) : (s.move p q t).Kept := by
  have hat := h.place p _ (at_head hp)
  exact h.move hp (.refl (hat.nattch.trans hshm.1.symm) (hat.marked.trans hshm.2.symm)) hleads
    hlooked

/-- A token is gone, and no call of `effuse` had it, or its call returns. -/
theorem dropped {effused : ℕ → Option Effused} (h : s.Kept) (hp : s.tokens p = t :: ts)
    (hmade : shm.made = s.shm.made) (hcontents : shm.contents = s.shm.contents)
    (hothers : ∀ i ≠ t.shmid, shm.nattch i = s.shm.nattch i ∧ shm.marked i = s.shm.marked i ∧
      effused i = s.history.effused i)
    (hgone : effused t.shmid = none → p.stage ≠ 3)
    (heffused : ∀ r, effused t.shmid = some r → effuseCopy (s.shm.contents t.shmid) = some r) :
    Kept { s with
      shm := shm
      tokens := Custody.take s.tokens p
      history := { s.history with effused := effused } } := by
  refine h.handed ⟨.removed h.linear hp, at_head hp, fun r t' ht' => ⟨r, mem_of_mem_take ht'⟩, hmade,
    hcontents, fun i hi => ?_, ⟨rfl, rfl⟩, ⟨rfl, rfl, rfl, rfl, rfl⟩, fun r hr => ?_,
    fun _ => hgone, heffused⟩
  · obtain ⟨hn, hm, he⟩ := hothers i hi
    exact ⟨hn, hm, rfl, he⟩
  · cases hr

theorem drop (h : s.Kept) (hp : s.tokens p = t :: ts) {n : ℕ} {b : Bool}
    (hshm : s.shm.ChangesAt shm t.shmid n b) (hstage : p.stage ≠ 3) :
    ((s.setShm shm).drop p).Kept := by
  have hnone := (h.place p _ (at_head hp)).effused
  refine h.dropped hp hshm.made hshm.contents
    (fun i hi => ⟨hshm.nattch_of_ne i hi, hshm.marked_of_ne i hi, rfl⟩) (fun _ => hstage)
    fun r hr => ?_
  cases hnone.symm.trans hr

/-- A token is lost. -/
theorem lose (h : s.Kept) (hp : s.tokens p = t :: ts) (hstage : p.stage ≠ 3) : (s.drop p).Kept :=
  h.drop hp (.refl rfl rfl) hstage

/-- A segment is made, for a call of `infuse` or for a message that comes in. -/
theorem made (h : s.Kept) {bytes : List UInt8} {infused : ℕ → Option Message} {taken : ℕ → List ℕ}
    (ht : t.shmid = s.shm.made)
    (hsize : ∀ m, infused s.shm.made = some m → t.size = 64 + m.msgbdy.length)
    (hq : q.nattch = 1 ∧ q.marked = false ∧ q.lookedUp = false)
    (hinfused : ∀ i ≠ s.shm.made, infused i = s.history.infused i)
    (htaken : ∀ l i, i ∈ taken l → i ≠ s.shm.made → i ∈ s.history.taken l)
    (htaken' : ∀ l, ∀ i ∈ s.history.taken l, i ∈ taken l)
    (hnew : (infused s.shm.made).isSome ∨ ∃ l, s.shm.made ∈ taken l)
    (hofInfuse : q.ofInfuse = true → (infused s.shm.made).isSome)
    (hbytes : ∀ m, infused s.shm.made = some m → 64 + m.msgbdy.length < 2 ^ 64 ∧ bytes = m.bytes) :
    Kept { s with
      shm := s.shm.shmget bytes
      tokens := Custody.put s.tokens q t
      history := { s.history with infused := infused, taken := taken } } := by
  have hcontents (i : ℕ) (hi : i ≠ s.shm.made) :
      (s.shm.shmget bytes).contents i = s.shm.contents i := Function.update_of_ne hi ..
  have hself : (s.shm.shmget bytes).contents s.shm.made = bytes := Function.update_self ..
  have hne {i : ℕ} (hi : i < s.shm.made) : i ≠ s.shm.made := hi.ne
  have hfresh (p : TokenPlace C K) : ¬At NynnToken.shmid s.tokens p t.shmid := fun hp =>
    absurd (h.place p _ hp).made (by rw [ht]; exact Nat.lt_irrefl _)
  have hlinear := HandsOver.added (p := q) h.linear hfresh
  have hlt {i : ℕ} (hi : i < s.shm.made) : i < (s.shm.shmget bytes).made := Nat.lt_succ_of_lt hi
  refine ⟨hlinear.linear, ?_, fun p t' ht' m hm => ?_, fun i hi => ?_, fun i m hm => ?_,
    fun l i hi => ?_, fun i hi => ?_, h.hosemap, fun j => ?_, fun n => ?_, fun n i hi => ?_,
    fun i r hr => ?_, h.once⟩
  · refine hlinear.forall_at h.place (fun p i hi hp => ?_) fun p hp => ?_
    · rw [ht] at hi
      refine ⟨hlt hp.made, (Function.update_of_ne hi ..).trans hp.nattch, hp.marked, fun hof => ?_,
        fun hl n hn => ?_, hp.pushed, hp.reached, hp.popped, hp.effused⟩
      · exact (congrArg Option.isSome (hinfused i hi)).trans (hp.infused hof)
      · exact (congrArg (fun bs => s.hosemap (msghdrMsgid bs)) (hcontents i hi)).trans
          (hp.lookedUp hl n hn)
    · cases hp
      rw [ht]
      refine ⟨Nat.lt_succ_self _, (Function.update_self ..).trans hq.1.symm,
        (h.unmade _ le_rfl).trans hq.2.1.symm, hofInfuse, fun hl => ?_, fun j hj => ?_,
        fun n hn => ?_, fun n hn => ?_, ?_⟩
      · rw [hq.2.2] at hl
        cases hl
      · exact absurd ((h.pushed j).2 _ hj).1 (Nat.lt_irrefl _)
      · exact absurd ((h.reached n).2 _ hn).1 (Nat.lt_irrefl _)
      · exact absurd (h.popped n _ hn).1 (Nat.lt_irrefl _)
      · exact Option.eq_none_iff_forall_ne_some.mpr fun r hr =>
          absurd (h.effused _ r hr).1 (Nat.lt_irrefl _)
  · rcases mem_put.mp ht' with ht' | ⟨-, rfl⟩
    · have hmade := (h.place p _ (List.mem_map_of_mem ht')).made
      exact h.sized p t' ht' m ((hinfused _ (hne hmade)).symm.trans hm)
    · exact hsize m (ht ▸ hm)
  · exact h.unmade i (Nat.le_of_succ_le hi)
  · by_cases hi : i = s.shm.made
    · subst hi
      obtain ⟨hlen, hbytes⟩ := hbytes m hm
      exact ⟨Nat.lt_succ_self _, hlen, hself.trans hbytes⟩
    · obtain ⟨hmade, hlen, hbytes⟩ := h.infused i m ((hinfused i hi).symm.trans hm)
      exact ⟨hlt hmade, hlen, (hcontents i hi).trans hbytes⟩
  · by_cases hmade : i = s.shm.made
    · exact hmade ▸ Nat.lt_succ_self _
    · exact hlt (h.taken l i (htaken l i hi hmade))
  · by_cases hmade : i = s.shm.made
    · exact hmade ▸ hnew
    · rcases h.origin i (lt_of_le_of_ne (Nat.le_of_lt_succ hi) hmade) with ho | ⟨l, hl⟩
      · exact Or.inl ((congrArg Option.isSome (hinfused i hmade)).trans ho)
      · exact Or.inr ⟨l, htaken' l i hl⟩
  · refine ⟨(h.pushed j).1, fun i hi => ?_⟩
    obtain ⟨hmade, hinf⟩ := (h.pushed j).2 i hi
    exact ⟨hlt hmade, (congrArg Option.isSome (hinfused i (hne hmade))).trans hinf⟩
  · refine ⟨(h.reached n).1, fun i hi => ?_⟩
    obtain ⟨hmade, hhose⟩ := (h.reached n).2 i hi
    exact ⟨hlt hmade, (congrArg (fun bs => s.hosemap (msghdrMsgid bs))
      (hcontents i (hne hmade))).trans hhose⟩
  · obtain ⟨hmade, heffuse⟩ := h.popped n i hi
    refine ⟨hlt hmade, fun he => ?_⟩
    obtain ⟨p, hstage, hp⟩ := heffuse he
    exact ⟨p, hstage, (hlinear.at_iff p i).mpr (Or.inl ⟨hp, ht ▸ hne hmade⟩)⟩
  · obtain ⟨hmade, hcopy⟩ := h.effused i r hr
    exact ⟨hlt hmade, (congrArg effuseCopy (hcontents i (hne hmade))).trans hcopy⟩

end Ways

/-! ### Queues -/

variable {i j q : ℕ}

/-- A message is pushed on the queue of a link. -/
theorem recordPushed (h : s.Kept) (hstage : ∀ p, At NynnToken.shmid s.tokens p i → p.stage = 1)
    (hnew : ∀ j, i ∉ s.history.pushed j) (hreached : ∀ q, i ∉ s.history.reached q)
    (hmade : i < s.shm.made) (hinfused : (s.history.infused i).isSome) :
    (s.recordPushed j i).Kept where
  linear := h.linear
  place p k hp := by
    obtain ⟨hm, hn, hb, hi, hl, hpushed, hreached, hpopped, he⟩ := h.place p k hp
    refine ⟨hm, hn, hb, hi, hl, fun j' hj' => ?_, hreached, hpopped, he⟩
    rcases mem_put.mp hj' with hj' | ⟨-, rfl⟩
    · exact hpushed j' hj'
    · exact hstage p hp
  sized := h.sized
  unmade := h.unmade
  infused := h.infused
  taken := h.taken
  origin := h.origin
  hosemap := h.hosemap
  pushed j' := by
    refine ⟨nodup_put (h.pushed j').1 (hnew j'), fun k hk => ?_⟩
    rcases mem_put.mp hk with hk | ⟨-, rfl⟩
    · exact (h.pushed j').2 k hk
    · exact ⟨hmade, hinfused⟩
  reached := h.reached
  popped := h.popped
  effused := h.effused
  once k j' hk := by
    rcases mem_put.mp hk with hold | ⟨rfl, rfl⟩
    · refine ⟨fun j'' hk' => ?_, (h.once k j' hold).2⟩
      rcases mem_put.mp hk' with hk' | ⟨-, rfl⟩
      · exact (h.once k j' hold).1 j'' hk'
      · exact absurd hold (hnew j')
    · refine ⟨fun j'' hk' => ?_, hreached⟩
      rcases mem_put.mp hk' with hk' | ⟨hj, -⟩
      · exact absurd hk' (hnew j'')
      · exact hj

/-- A message is pushed on the queue of a hose. -/
theorem recordReached (h : s.Kept) (hstage : ∀ p, At NynnToken.shmid s.tokens p i → 2 ≤ p.stage)
    (hnew : ∀ q, i ∉ s.history.reached q) (hpushed : ∀ j, i ∉ s.history.pushed j)
    (hmade : i < s.shm.made)
    (hhose : s.hosemap (msghdrMsgid (s.shm.contents i)) = some q) : (s.recordReached q i).Kept where
  linear := h.linear
  place p k hp := by
    obtain ⟨hm, hn, hb, hi, hl, hpushed, hreached, hpopped, he⟩ := h.place p k hp
    refine ⟨hm, hn, hb, hi, hl, hpushed, fun q' hq' => ?_, hpopped, he⟩
    rcases mem_put.mp hq' with hq' | ⟨-, rfl⟩
    · exact hreached q' hq'
    · exact hstage p hp
  sized := h.sized
  unmade := h.unmade
  infused := h.infused
  taken := h.taken
  origin := h.origin
  hosemap := h.hosemap
  pushed := h.pushed
  reached q' := by
    refine ⟨nodup_put (h.reached q').1 (hnew q'), fun k hk => ?_⟩
    rcases mem_put.mp hk with hk | ⟨rfl, rfl⟩
    · exact (h.reached q').2 k hk
    · exact ⟨hmade, hhose⟩
  popped := h.popped
  effused := h.effused
  once k j hk := by
    refine ⟨(h.once k j hk).1, fun q' hq' => ?_⟩
    rcases mem_put.mp hq' with hq' | ⟨-, rfl⟩
    · exact (h.once k j hk).2 q' hq'
    · exact hpushed j hk

/-- A message is popped from the queue of a hose, for a call of `effuse`. -/
theorem recordPopped (h : s.Kept) {p : TokenPlace C K} (hstage : p.stage = 3)
    (hp : At NynnToken.shmid s.tokens p i) : (s.recordPopped q i).Kept where
  linear := h.linear
  place p' k hp' := by
    obtain ⟨hm, hn, hb, hi, hl, hpushed, hreached, hpopped, he⟩ := h.place p' k hp'
    refine ⟨hm, hn, hb, hi, hl, hpushed, hreached, fun q' hq' => ?_, he⟩
    rcases mem_put.mp hq' with hq' | ⟨-, rfl⟩
    · exact hpopped q' hq'
    · rw [h.linear.unique p' p _ hp' hp]
      exact hstage
  sized := h.sized
  unmade := h.unmade
  infused := h.infused
  taken := h.taken
  origin := h.origin
  hosemap := h.hosemap
  pushed := h.pushed
  reached := h.reached
  popped q' k hk := by
    rcases mem_put.mp hk with hk | ⟨-, rfl⟩
    · exact h.popped q' k hk
    · exact ⟨(h.place p _ hp).made, fun _ => ⟨p, hstage, hp⟩⟩
  effused := h.effused
  once := h.once

/-- A message id is added, with a new queue if it is not in the map. -/
theorem addHose (h : s.Kept) (msgid : List UInt8) : (s.addHose msgid).Kept := by
  have hmap : ∀ k n, s.hosemap k = some n → (s.addHose msgid).hosemap k = some n := by
    intro k n hk
    show (s.hosemap.add s.hosesMade msgid).2 k = some n
    rw [HoseMap.add]
    split
    · rename_i hnone
      have hne : k ≠ msgid := fun e => by
        rw [e, hnone] at hk
        cases hk
      exact (Function.update_of_ne hne ..).trans hk
    · exact hk
  have hold : ∀ k n, (s.addHose msgid).hosemap k = some n →
      s.hosemap k = some n ∨ k = msgid ∧ n = s.hosesMade ∧ s.hosemap msgid = none := by
    intro k n hk
    change (s.hosemap.add s.hosesMade msgid).2 k = some n at hk
    rw [HoseMap.add] at hk
    split at hk
    · rename_i hnone
      by_cases hne : k = msgid
      · subst hne
        dsimp only at hk
        rw [Function.update_self, Option.some.injEq] at hk
        exact Or.inr ⟨rfl, hk.symm, hnone⟩
      · exact Or.inl ((Function.update_of_ne hne ..).symm.trans hk)
    · exact Or.inl hk
  have hmade (n : ℕ) (hn : n < s.hosesMade) : n < (s.addHose msgid).hosesMade :=
    hn.trans_le (Nat.le_add_right ..)
  refine ⟨h.linear, fun p i hp => ?_, h.sized, h.unmade, h.infused, h.taken, h.origin,
    fun k n hk => ?_, h.pushed, fun q => ⟨(h.reached q).1, fun i hi => ?_⟩, h.popped, h.effused,
    h.once⟩
  · obtain ⟨hm, hn, hb, hi, hl, hpushed, hreached, hpopped, he⟩ := h.place p i hp
    exact ⟨hm, hn, hb, hi, fun hp n hq => hmap _ n (hl hp n hq), hpushed, hreached, hpopped, he⟩
  · rcases hold k n hk with hk | ⟨rfl, rfl, hnone⟩
    · obtain ⟨hlt, hinj⟩ := h.hosemap k n hk
      refine ⟨hmade n hlt, fun k' hk' => ?_⟩
      rcases hold k' n hk' with hk' | ⟨-, rfl, -⟩
      · exact hinj k' hk'
      · exact absurd hlt (Nat.lt_irrefl _)
    · refine ⟨?_, fun k' hk' => ?_⟩
      · show s.hosesMade < s.hosesMade + if s.hosemap.get k = none then 1 else 0
        rw [HoseMap.get, if_pos hnone]
        exact Nat.lt_succ_self _
      · rcases hold k' _ hk' with hk' | ⟨rfl, -, -⟩
        · exact absurd (h.hosemap k' _ hk').1 (Nat.lt_irrefl _)
        · rfl
  · obtain ⟨hlt, hhose⟩ := (h.reached q).2 i hi
    exact ⟨hlt, hmap _ q hhose⟩

end Kept

end Holdings

/-! ### The steps -/

namespace Holdings.Kept

variable {C K R W : Type}

theorem init : (Holdings.init : Holdings C K).Kept where
  linear := .empty
  place _ _ h := absurd h List.not_mem_nil
  sized _ _ h := absurd h List.not_mem_nil
  unmade _ _ := rfl
  infused _ _ h := absurd h (Option.some_ne_none _).symm
  taken _ _ h := absurd h List.not_mem_nil
  origin _ h := absurd h (Nat.not_lt_zero _)
  hosemap _ _ h := absurd h (Option.some_ne_none _).symm
  pushed _ := ⟨List.nodup_nil, fun _ h => absurd h List.not_mem_nil⟩
  reached _ := ⟨List.nodup_nil, fun _ h => absurd h List.not_mem_nil⟩
  popped _ _ h := absurd h List.not_mem_nil
  effused _ _ h := absurd h (Option.some_ne_none _).symm
  once _ _ h := absurd h List.not_mem_nil

variable {s : Holdings C K} {t : NynnToken} {ts : List NynnToken} {p q : TokenPlace C K}

/-- The segment of a token exists when its place says that it is not marked. -/
theorem exists_shm (h : s.Kept) (hp : s.tokens p = t :: ts) (hm : p.marked = false) :
    s.shm.Exists t.shmid := by
  have hat := h.place p _ (at_head hp)
  refine ⟨hat.made, fun hgone => ?_⟩
  rw [hat.marked, hm] at hgone
  cases hgone.1

/-- Who is attached to a segment reads its contents. -/
theorem reads (h : s.Kept) (hp : s.tokens p = t :: ts) (hn : p.nattch = 1) {bytes : List UInt8}
    (hbytes : s.shm.Reads t.shmid bytes) : bytes = s.shm.contents t.shmid :=
  hbytes (by rw [(h.place p _ (at_head hp)).nattch, hn]; exact one_ne_zero)

variable [DecidableEq C] [DecidableEq K]

private theorem infuse (h : s.Kept) {k : K} {m : Message} {host : UInt32} {bytes : List UInt8}
    (hfill : m.fill = some bytes) :
    (((s.setShm (s.shm.shmget bytes)).put (.inl (.filling k))
      ⟨s.shm.made, m.shmsize, host⟩).recordInfused s.shm.made m).Kept := by
  obtain ⟨hlt, hsize, rfl⟩ := Message.of_fill hfill
  have hself : Function.update s.history.infused s.shm.made (some m) s.shm.made = some m :=
    Function.update_self ..
  have hsome : (Function.update s.history.infused s.shm.made (some m) s.shm.made).isSome := by
    rw [hself]
    rfl
  refine h.made (t := ⟨s.shm.made, m.shmsize, host⟩) (q := .inl (.filling k)) rfl
    (fun m' hm' => ?_) ⟨rfl, rfl, rfl⟩ (fun i hi => Function.update_of_ne hi ..)
    (fun _ _ hi _ => hi) (fun _ _ hi => hi) (Or.inl hsome) (fun _ => hsome) fun m' hm' => ?_
  · obtain rfl := Option.some.inj (hself.symm.trans hm')
    exact hsize
  · obtain rfl := Option.some.inj (hself.symm.trans hm')
    exact ⟨hlt, rfl⟩

/-- The `reader` has a message that is complete. -/
private theorem turnHanded (h : s.Kept) {i : ℕ} {f : Fragment} :
    (((s.setShm (s.shm.shmget f.shm)).put (.inl (.attached (.inr i)))
      ⟨s.shm.made, f.size, 0⟩).recordTaken i s.shm.made).Kept := by
  have hnone (m : Message) : s.history.infused s.shm.made ≠ some m := fun hm =>
    absurd (h.infused _ m hm).1 (Nat.lt_irrefl _)
  refine h.made (t := ⟨s.shm.made, f.size, 0⟩) (q := .inl (.attached (.inr i))) rfl
    (fun m hm => absurd hm (hnone m)) ⟨rfl, rfl, rfl⟩ (fun _ _ => rfl) (fun l k hk hne => ?_)
    (fun l k hk => mem_put.mpr (Or.inl hk)) (Or.inr ⟨i, mem_put.mpr (Or.inr ⟨rfl, rfl⟩)⟩)
    (fun hof => ?_) fun m hm => absurd hm (hnone m)
  · exact (mem_put.mp hk).resolve_right fun e => hne e.2
  · cases hof

private theorem get (h : s.Kept) {p : C ⊕ ℕ} {bytes : List UInt8}
    (hp : s.tokens (.inl (.attached p)) = [t]) (hbytes : s.shm.Reads t.shmid bytes) :
    ((s.setRqueue t.shmid (s.hosemap.get (msghdrMsgid bytes))).move (.inl (.attached p))
      (.inl (.found p)) t).Kept := by
  have hat := h.place _ _ (at_head hp)
  obtain rfl := h.reads hp rfl hbytes
  refine h.moved (q := .inl (.found p)) hp (.refl hat.nattch hat.marked) rfl
    (fun i hi => Function.update_of_ne hi ..) fun _ n hn => ?_
  change Function.update s.rqueue t.shmid (s.hosemap.get _) t.shmid = some n at hn
  rwa [Function.update_self] at hn

private theorem push (h : s.Kept) {p : C ⊕ ℕ} {q : ℕ}
    (hp : s.tokens (.inl (.released p)) = [t]) (hq : s.rqueue t.shmid = some q) :
    ((s.move (.inl (.released p)) (.inr q) t).recordReached q t.shmid).Kept := by
  have hat := h.place _ _ (at_head hp)
  have hmove := HandsOver.moved (q := (.inr q : TokenPlace C K)) h.linear hp
  have hkept : (s.move (.inl (.released p)) (.inr q) t).Kept :=
    h.pass hp ⟨rfl, rfl⟩ rfl (by simp [TokenPlace.lookedUp])
  refine hkept.recordReached (fun r hr => ?_) (fun q' hq' => ?_) (fun j hj => ?_) hat.made
    (hat.lookedUp rfl q hq)
  · rcases (hmove.at_iff r _).mp hr with ⟨-, hne⟩ | ⟨-, htarget⟩
    · exact absurd rfl hne
    · cases htarget
      exact le_rfl
  · exact absurd (hat.reached q' hq') (by simp [TokenPlace.stage])
  · exact absurd (hat.pushed j hj) (by simp [TokenPlace.stage])

private theorem route (h : s.Kept) {c : C} {j : ℕ}
    (hp : s.tokens (.inl (.attachedRemote c)) = [t]) :
    ((s.move (.inl (.attachedRemote c)) (.inl (.wqueue j)) t).recordPushed j t.shmid).Kept := by
  have hat := h.place _ _ (at_head hp)
  have hmove := HandsOver.moved (q := (.inl (.wqueue j) : TokenPlace C K)) h.linear hp
  have hkept : (s.move (.inl (.attachedRemote c)) (.inl (.wqueue j)) t).Kept :=
    h.pass hp ⟨rfl, rfl⟩ rfl (by simp [TokenPlace.lookedUp])
  refine hkept.recordPushed (fun r hr => ?_) (fun j' hj' => ?_) (fun q hq => ?_) hat.made
    (hat.infused rfl)
  · rcases (hmove.at_iff r _).mp hr with ⟨-, hne⟩ | ⟨-, htarget⟩
    · exact absurd rfl hne
    · cases htarget
      rfl
  · exact absurd (hat.pushed j' hj') (by simp [TokenPlace.stage])
  · exact absurd (hat.reached q hq) (by simp [TokenPlace.stage])

private theorem pop (h : s.Kept) {c : C} {q : ℕ} (hp : s.tokens (.inr q) = t :: ts) :
    ((s.move (.inr q) (.inl (.popped c)) t).recordPopped q t.shmid).Kept := by
  have hat := h.place _ _ (at_head hp)
  have hmove := HandsOver.moved (q := (.inl (.popped c) : TokenPlace C K)) h.linear hp
  have hkept : (s.move (.inr q) (.inl (.popped c)) t).Kept :=
    h.pass hp ⟨rfl, rfl⟩ rfl (by simp [TokenPlace.lookedUp])
  exact hkept.recordPopped (p := .inl (.popped c)) rfl
    ((hmove.at_iff _ _).mpr (Or.inr ⟨rfl, rfl⟩))

private theorem finish (h : s.Kept) {k : K} {bytes : List UInt8} {result : Effused}
    (hp : s.tokens (.inl (.reading k)) = [t]) (hbytes : s.shm.Reads t.shmid bytes)
    (hcopy : effuseCopy bytes = some result) :
    (((s.setShm (s.shm.shmdt t.shmid)).drop (.inl (.reading k))).recordEffused t.shmid
      result).Kept := by
  obtain rfl := h.reads hp rfl hbytes
  refine h.dropped hp rfl rfl (fun i hi => ⟨Function.update_of_ne hi .., rfl,
    Function.update_of_ne hi ..⟩) (fun hnone => ?_) fun r hr => ?_
  · rw [Function.update_self] at hnone
    cases hnone
  · rw [Function.update_self] at hr
    cases hr
    exact hcopy

end Holdings.Kept

namespace TokenPlace

variable {C K : Type}

/-- The queues, and the places behind the queues of the links. -/
def isQueue : TokenPlace C K → Bool
  | .inl (.wqueue _) | .inl .writing | .inl .delaycleaned | .inr _ => true
  | .inl _ => false

theorem ne_of_isQueue {p q : TokenPlace C K} (hp : p.isQueue = true) (hq : q.isQueue = false) :
    p ≠ q := fun e => by
  rw [e, hq] at hp
  cases hp

end TokenPlace

/-- The step concerns no queue, and no lock of a link. -/
def NodeEvent.isQuiet {C K R W : Type} : NodeEvent C K R W → Bool
  | push _ | route _ | trylock _ | empty _ | write _ | delayclean _ | transmit _ _ _ | unlock _
  | lock _ | again _ | recv _ _ _ | turn _ _ | next _ | loop _ | pop _ => false
  | _ => true

/-- The token that the `writer` has popped. -/
def Writing.req : Writing → List NynnToken
  | popped _ req => [req]
  | locked _ | sending _ _ _ => []

namespace Node

variable {C K R W : Type} {s s' : Node C K R W}

/-- What a step that concerns no queue leaves as it is. -/
structure Quiet (s s' : Node C K R W) : Prop where
  tokens : ∀ p : TokenPlace C K, p.isQueue = true → s'.tokens p = s.tokens p
  contents : ∀ i < s.shm.made, s'.shm.contents i = s.shm.contents i
  wlock : s'.wlock = s.wlock
  rlock : s'.rlock = s.rlock
  cached : s'.cachedfragment = s.cachedfragment
  pushed : s'.history.pushed = s.history.pushed
  taken : s'.history.taken = s.history.taken
  reached : s'.history.reached = s.history.reached
  popped : s'.history.popped = s.history.popped

section Quiet

variable [DecidableEq C] [DecidableEq K]

private theorem quiet_move {p q : TokenPlace C K} {t : NynnToken} (hp : p.isQueue = false)
    (hq : q.isQueue = false) : ∀ r : TokenPlace C K, r.isQueue = true →
      Custody.put (Custody.take s.tokens p) q t r = s.tokens r := fun _ hr =>
  (put_of_ne (TokenPlace.ne_of_isQueue hr hq)).trans (take_of_ne (TokenPlace.ne_of_isQueue hr hp))

private theorem quiet_drop {p : TokenPlace C K} (hp : p.isQueue = false) :
    ∀ r : TokenPlace C K, r.isQueue = true → Custody.take s.tokens p r = s.tokens r := fun _ hr =>
  take_of_ne (TokenPlace.ne_of_isQueue hr hp)

variable [DecidableEq R] [DecidableEq W] {config : DaemonConfig} {shmmax : ℕ}
  {a : NodeEvent C K R W}

theorem quiet_step (ha : a.isQuiet = true) (hstep : NodeStep config shmmax s a s') :
    s.Quiet s' := by
  cases hstep with
  | infuse =>
    exact ⟨fun r hr => put_of_ne (TokenPlace.ne_of_isQueue hr rfl),
      fun i hi => Function.update_of_ne hi.ne .., rfl, rfl, rfl, rfl, rfl, rfl, rfl⟩
  | shmdt | send | requireLocal | requireRemote | get | release | reply | receive | shmat =>
    exact ⟨quiet_move rfl rfl, fun _ _ => rfl, rfl, rfl, rfl, rfl, rfl, rfl, rfl⟩
  | sendFails | shmatFails | finish =>
    exact ⟨quiet_drop rfl, fun _ _ => rfl, rfl, rfl, rfl, rfl, rfl, rfl, rfl⟩
  | shmrm =>
    refine ⟨quiet_drop rfl, fun i _ => ?_, rfl, rfl, rfl, rfl, rfl, rfl, rfl⟩
    show (s.shm.shmrm _).contents i = s.shm.contents i
    rw [SharedMemory.shmrm]
    split <;> rfl
  | pollIn | pollOut | wtask | busy | rtask | register | add | serve | effuse =>
    exact ⟨fun _ _ => rfl, fun _ _ => rfl, rfl, rfl, rfl, rfl, rfl, rfl, rfl⟩
  | _ => cases ha

end Quiet

/-- The tokens of the `writer` that has the lock. -/
structure WriterHolds (s : Node C K R W) : Prop where
  writing : s.tokens (.inl .writing) = s.wlock.elim [] (·.2.req)
  delaycleaned : ∀ w j t size, s.wlock = some (w, .sending j t size) →
    s.tokens (.inl .delaycleaned) = [t]

/-- The messages that have reached a hose are popped one after the other. -/
def QueuesHold (s : Node C K R W) : Prop :=
  ∀ q, s.history.reached q = s.history.popped q ++ (s.tokens (.inr q)).map (·.shmid)

theorem WriterHolds.of_tokens (h : s.WriterHolds) (hlock : s'.wlock = s.wlock)
    (hwriting : s'.tokens (.inl .writing) = s.tokens (.inl .writing))
    (hdelaycleaned : s'.tokens (.inl .delaycleaned) = s.tokens (.inl .delaycleaned)) :
    s'.WriterHolds where
  writing := by rw [hwriting, hlock, h.writing]
  delaycleaned w j t size hw := by
    rw [hdelaycleaned]
    exact h.delaycleaned w j t size (hlock ▸ hw)

variable [DecidableEq C] [DecidableEq K] [DecidableEq R] [DecidableEq W] {config : DaemonConfig}
  {shmmax : ℕ} {a : NodeEvent C K R W}

theorem writerHolds_step (h : s.WriterHolds) (hstep : NodeStep config shmmax s a s') :
    s'.WriterHolds := by
  by_cases ha : a.isQuiet = true
  · have hquiet := quiet_step ha hstep
    exact h.of_tokens hquiet.wlock (hquiet.tokens _ rfl) (hquiet.tokens _ rfl)
  cases hstep with
  | push => exact h.of_tokens rfl (by simp [Holdings.move_of_ne]) (by simp [Holdings.move_of_ne])
  | route => exact h.of_tokens rfl (by simp [Holdings.move_of_ne]) (by simp [Holdings.move_of_ne])
  | routeNowhere =>
    exact h.of_tokens rfl (by simp [Holdings.drop_of_ne]) (by simp [Holdings.drop_of_ne])
  | pop => exact h.of_tokens rfl (by simp [Holdings.move_of_ne]) (by simp [Holdings.move_of_ne])
  | turnHanded =>
    exact h.of_tokens rfl (by simp [Holdings.put_of_ne]) (by simp [Holdings.put_of_ne])
  | lock | again | recv | turn | next | loop | loopEnds => exact h.of_tokens rfl rfl rfl
  | trylock _ hlock =>
    refine ⟨h.writing.trans (by rw [hlock]; rfl), fun w j t size hw => ?_⟩
    cases hw
  | empty hlock =>
    refine ⟨h.writing.trans (by rw [hlock]; rfl), fun w j t size hw => ?_⟩
    cases hw
  | write hlock =>
    have hnil : s.tokens (.inl .writing) = [] := h.writing.trans (by rw [hlock]; rfl)
    refine ⟨?_, fun w j t size hw => ?_⟩
    · simp [Holdings.move_target, hnil, Node.setWlock, Writing.req]
    · cases hw
  | delayclean hlock hnull =>
    have hreq : s.tokens (.inl .writing) = [_] := h.writing.trans (by rw [hlock]; rfl)
    refine ⟨?_, fun w j t size hw => ?_⟩
    · simp [Holdings.move_source, hreq, Node.setWlock, Writing.req]
    · cases hw
      simp [Holdings.move_target, hnull]
  | delaycleanRelease hlock hold =>
    have hreq : s.tokens (.inl .writing) = [_] := h.writing.trans (by rw [hlock]; rfl)
    refine ⟨?_, fun w j t size hw => ?_⟩
    · simp [Holdings.move_source, Holdings.drop_of_ne, hreq, Node.setWlock, Writing.req]
    · cases hw
      simp [Holdings.move_target, Holdings.drop, take_self, hold]
  | transmit hlock =>
    refine ⟨h.writing.trans (by rw [hlock]; rfl), fun w j t size hw => ?_⟩
    cases hw
    exact h.delaycleaned _ _ _ _ hlock
  | unlock hlock =>
    refine ⟨h.writing.trans (by rw [hlock]; rfl), fun w j t size hw => ?_⟩
    cases hw
  | _ => exact absurd rfl ha

omit [DecidableEq C] [DecidableEq K] [DecidableEq R] [DecidableEq W] in
private theorem QueuesHold.of_tokens (h : s.QueuesHold)
    (hhistory : s'.history.reached = s.history.reached ∧ s'.history.popped = s.history.popped)
    (htokens : ∀ q, s'.tokens (.inr q) = s.tokens (.inr q)) : s'.QueuesHold := fun q => by
  rw [hhistory.1, hhistory.2, htokens]
  exact h q

/-- Only `push` and `pop` concern the queue of a hose. -/
theorem queuesHold_step (h : s.QueuesHold) (hstep : NodeStep config shmmax s a s') :
    s'.QueuesHold := by
  by_cases ha : a.isQuiet = true
  · have hquiet := quiet_step ha hstep
    exact h.of_tokens ⟨hquiet.reached, hquiet.popped⟩ fun q => hquiet.tokens (.inr q) rfl
  cases hstep with
  | @push p t q hp =>
    intro q'
    have hq' := h q'
    by_cases hqq : q' = q
    · subst hqq
      simp [put_self, Holdings.move_target, hq']
    · simp [put_of_ne hqq, Holdings.move_of_ne, hqq, hq']
  | @pop c msgid q t ts _ _ _ hp =>
    intro q'
    have hq' := h q'
    by_cases hqq : q' = q
    · subst hqq
      rw [hp] at hq'
      simp [put_self, Holdings.move_source, hp, hq']
    · simp [put_of_ne hqq, Holdings.move_of_ne, hqq, hq']
  | route => exact h.of_tokens ⟨rfl, rfl⟩ fun q => by simp [Holdings.move_of_ne]
  | routeNowhere => exact h.of_tokens ⟨rfl, rfl⟩ fun q => by simp [Holdings.drop_of_ne]
  | write => exact h.of_tokens ⟨rfl, rfl⟩ fun q => by simp [Holdings.move_of_ne]
  | delayclean => exact h.of_tokens ⟨rfl, rfl⟩ fun q => by simp [Holdings.move_of_ne]
  | delaycleanRelease =>
    exact h.of_tokens ⟨rfl, rfl⟩ fun q => by simp [Holdings.move_of_ne, Holdings.drop_of_ne]
  | turnHanded => exact h.of_tokens ⟨rfl, rfl⟩ fun q => by simp [Holdings.put_of_ne]
  | trylock | empty | transmit | unlock | lock | again | recv | turn | next | loop | loopEnds =>
    exact h
  | _ => exact absurd rfl ha

/-- **The steps.** Every step keeps the ledger. -/
theorem kept_step (h : s.Kept) (hwriter : s.WriterHolds) (hstep : NodeStep config shmmax s a s') :
    s'.Kept := by
  cases hstep with
  | infuse _ _ hfill => exact h.infuse hfill
  | shmdt hp =>
    have hat := h.place _ _ (at_head hp)
    exact h.move hp (.shmdt hat.nattch hat.marked) rfl (by simp [TokenPlace.lookedUp])
  | send hp =>
    exact h.pass hp ⟨rfl, rfl⟩ rfl (by simp [TokenPlace.lookedUp])
  | sendFails hp =>
    exact h.lose hp (by simp [TokenPlace.stage])
  | requireLocal _ hp =>
    have hat := h.place _ _ (at_head hp)
    exact h.move hp (.shmat (h.exists_shm hp rfl) hat.nattch hat.marked) rfl
      (by simp [TokenPlace.lookedUp])
  | requireRemote _ hp =>
    have hat := h.place _ _ (at_head hp)
    exact h.move hp (SharedMemory.ChangesAt.shmat (h.exists_shm hp rfl) hat.nattch hat.marked).rmid
      rfl (by simp [TokenPlace.lookedUp])
  | get hp hbytes => exact h.get hp hbytes
  | release hp =>
    have hat := h.place _ _ (at_head hp)
    exact h.move hp (.shmdt hat.nattch hat.marked) rfl (by simp [TokenPlace.lookedUp])
  | push hp hq => exact h.push hp hq
  | shmrm hp =>
    have hn : s.shm.nattch _ = 0 := (h.place _ _ (at_head hp)).nattch
    rw [SharedMemory.shmrm, if_neg (not_not_intro hn)]
    exact h.drop hp (SharedMemory.ChangesAt.refl rfl rfl).rmid (by simp [TokenPlace.stage])
  | route hp => exact h.route hp
  | routeNowhere hp =>
    exact h.lose hp (by simp [TokenPlace.stage])
  | write _ hp =>
    exact h.pass hp ⟨rfl, rfl⟩ rfl (by simp [TokenPlace.lookedUp])
  | @delayclean _ _ t hlock =>
    have hp : s.tokens (.inl .writing) = [t] := hwriter.writing.trans (by rw [hlock]; rfl)
    exact h.pass hp ⟨rfl, rfl⟩ rfl (by simp [TokenPlace.lookedUp])
  | @delaycleanRelease _ _ t d hlock hold =>
    have hgone : ((s.setShm (s.shm.shmdt d.shmid)).drop (.inl .delaycleaned)).Kept :=
      h.drop hold (.shmdt (h.place _ _ (at_head hold)).nattch rfl) (by simp [TokenPlace.stage])
    have hp : ((s.setShm (s.shm.shmdt d.shmid)).drop (.inl .delaycleaned)).tokens (.inl .writing) =
        [t] := by
      rw [Holdings.drop_of_ne _ (by simp), Holdings.tokens_setShm, hwriter.writing, hlock]
      rfl
    exact hgone.pass hp ⟨rfl, rfl⟩ rfl (by simp [TokenPlace.lookedUp])
  | turnHanded => exact h.turnHanded
  | add => exact h.addHose _
  | pop _ _ _ hp => exact h.pop hp
  | reply hp =>
    exact h.pass hp ⟨rfl, rfl⟩ rfl (by simp [TokenPlace.lookedUp])
  | receive _ hp =>
    exact h.pass hp ⟨rfl, rfl⟩ rfl (by simp [TokenPlace.lookedUp])
  | shmat hp hexists =>
    have hat := h.place _ _ (at_head hp)
    exact h.move hp (SharedMemory.ChangesAt.shmat hexists hat.nattch hat.marked).rmid rfl
      (by simp [TokenPlace.lookedUp])
  | shmatFails hp hexists => exact absurd (h.exists_shm hp rfl) hexists
  | finish hp hbytes hcopy => exact h.finish hp hbytes hcopy
  | _ => exact h

/-- A call of `effuse` that has the lock of the tap has sent its request, or its token is on the
way. -/
def TapsHold (s : Node C K R W) : Prop :=
  ∀ c, (s.requested c).toNat + (s.tokens (.inl (.popped c))).length +
    (s.tokens (.inl (.rsocket c))).length = (s.tapLock c).isSome.toNat

omit [DecidableEq C] [DecidableEq K] [DecidableEq R] [DecidableEq W] in
private theorem TapsHold.of_tokens (h : s.TapsHold) (hlock : s'.tapLock = s.tapLock)
    (hrequested : s'.requested = s.requested)
    (hpopped : ∀ c, s'.tokens (.inl (.popped c)) = s.tokens (.inl (.popped c)))
    (hrsocket : ∀ c, s'.tokens (.inl (.rsocket c)) = s.tokens (.inl (.rsocket c))) :
    s'.TapsHold := fun c => by
  rw [hlock, hrequested, hpopped, hrsocket]
  exact h c

/-- Only the steps of a call of `effuse` up to `receive` concern its tap. -/
theorem tapsHold_step (h : s.TapsHold) (hstep : NodeStep config shmmax s a s') : s'.TapsHold := by
  cases hstep with
  | @effuse k c _ hlock =>
    intro c'
    have hc := h c'
    by_cases hcc : c' = c
    · subst hcc
      rw [hlock] at hc
      simp only [Option.isSome_none, Bool.toNat_false, Nat.add_eq_zero_iff,
        List.length_eq_zero_iff] at hc
      simp [setTap, hc]
    · simpa [setTap, hcc] using hc
  | @pop c _ q t ts _ hrequested hpopped _ =>
    intro c'
    have hc := h c'
    by_cases hcc : c' = c
    · subst hcc
      rw [hrequested, hpopped] at hc
      simp [setTap, Holdings.move_target, Holdings.move_of_ne, hpopped, ← hc]
    · simpa [setTap, hcc, Holdings.move_of_ne] using hc
  | @reply c t hp =>
    intro c'
    have hc := h c'
    by_cases hcc : c' = c
    · subst hcc
      rw [hp] at hc
      rw [List.length_singleton] at hc
      simp only [toHoldings_hold, requested_hold, tapLock_hold, ← hc]
      rw [Holdings.move_source _ (by simp), Holdings.move_target _ (by simp), hp]
      simp only [List.length_append, List.length_singleton, List.tail_cons, List.length_nil]
      omega
    · simpa [Holdings.move_of_ne, hcc] using hc
  | @receive k c t ts hlock hp =>
    intro c'
    have hc := h c'
    by_cases hcc : c' = c
    · subst hcc
      rw [hp, hlock] at hc
      simp only [List.length_cons, Option.isSome_some, Bool.toNat_true] at hc
      simp only [setTap, toHoldings_hold, Function.update_self, Option.isSome_none, Bool.toNat_false]
      rw [Holdings.move_source _ (by simp), Holdings.move_of_ne _ (by simp) (by simp), hp,
        List.tail_cons]
      omega
    · simpa [setTap, hcc, Holdings.move_of_ne] using hc
  | infuse | turnHanded =>
    exact h.of_tokens rfl rfl (fun c => by simp [Holdings.put_of_ne])
      fun c => by simp [Holdings.put_of_ne]
  | shmdt | send | requireLocal | requireRemote | get | release | push | route | write | delayclean
  | shmat =>
    exact h.of_tokens rfl rfl (fun c => by simp [Holdings.move_of_ne])
      fun c => by simp [Holdings.move_of_ne]
  | delaycleanRelease =>
    exact h.of_tokens rfl rfl (fun c => by simp [Holdings.move_of_ne, Holdings.drop_of_ne])
      fun c => by simp [Holdings.move_of_ne, Holdings.drop_of_ne]
  | sendFails | shmrm | routeNowhere | shmatFails | finish =>
    exact h.of_tokens rfl rfl (fun c => by simp [Holdings.drop_of_ne])
      fun c => by simp [Holdings.drop_of_ne]
  | _ => exact h

/-- A thread of a client is in one call of `effuse` at most, and waits for the token or has it. -/
structure ClientsHold (s : Node C K R W) : Prop where
  tapLock : ∀ k c c', s.tapLock c = some k → s.tapLock c' = some k → c' = c
  waiting : ∀ k c, s.tapLock c = some k →
    s.tokens (.inl (.received k)) = [] ∧ s.tokens (.inl (.reading k)) = []
  received : ∀ k,
    (s.tokens (.inl (.received k))).length + (s.tokens (.inl (.reading k))).length ≤ 1

omit [DecidableEq C] [DecidableEq K] [DecidableEq R] [DecidableEq W] in
private theorem ClientsHold.of_tokens (h : s.ClientsHold)
    (hlock : ∀ c k, s'.tapLock c = some k → s.tapLock c = some k)
    (hreceived : ∀ k, (s'.tokens (.inl (.received k))).Sublist (s.tokens (.inl (.received k))))
    (hreading : ∀ k, (s'.tokens (.inl (.reading k))).Sublist (s.tokens (.inl (.reading k)))) :
    s'.ClientsHold where
  tapLock k c c' hc hc' := h.tapLock k c c' (hlock c k hc) (hlock c' k hc')
  waiting k c hc := by
    obtain ⟨hnil, hnil'⟩ := h.waiting k c (hlock c k hc)
    exact ⟨List.sublist_nil.mp (hnil ▸ hreceived k), List.sublist_nil.mp (hnil' ▸ hreading k)⟩
  received k := (Nat.add_le_add (hreceived k).length_le (hreading k).length_le).trans (h.received k)

/-- Only the steps of a call of `effuse` concern its client. -/
theorem clientsHold_step (h : s.ClientsHold) (hstep : NodeStep config shmmax s a s') :
    s'.ClientsHold := by
  cases hstep with
  | @effuse k c hidle hlock =>
    have hcases (c' : C) (k' : K) (hc : Function.update s.tapLock c (some k) c' = some k') :
        c' = c ∧ k' = k ∨ s.tapLock c' = some k' := by
      by_cases hcc : c' = c
      · subst hcc
        rw [Function.update_self, Option.some.injEq] at hc
        exact Or.inl ⟨rfl, hc.symm⟩
      · rw [Function.update_of_ne hcc] at hc
        exact Or.inr hc
    refine ⟨fun k' c₁ c₂ h₁ h₂ => ?_, fun k' c' hc => ?_, h.received⟩
    · rcases hcases c₁ k' h₁ with ⟨hc₁, hk₁⟩ | h₁ <;> rcases hcases c₂ k' h₂ with ⟨hc₂, hk₂⟩ | h₂
      · exact hc₂.trans hc₁.symm
      · exact absurd (hk₁ ▸ h₂) (hidle.1 c₂)
      · exact absurd (hk₂ ▸ h₁) (hidle.1 c₁)
      · exact h.tapLock k' c₁ c₂ h₁ h₂
    · rcases hcases c' k' hc with ⟨-, rfl⟩ | hc
      · exact ⟨hidle.2.2.2.1, hidle.2.2.2.2⟩
      · exact h.waiting k' c' hc
  | @receive k c t ts hlock hp =>
    have hold (c' : C) (k' : K) (hc : Function.update s.tapLock c none c' = some k') :
        c' ≠ c ∧ s.tapLock c' = some k' := by
      have hne : c' ≠ c := fun e => by
        rw [e, Function.update_self] at hc
        cases hc
      rw [Function.update_of_ne hne] at hc
      exact ⟨hne, hc⟩
    obtain ⟨hreceived, hreading⟩ := h.waiting k c hlock
    refine ⟨fun k' c₁ c₂ h₁ h₂ => h.tapLock k' c₁ c₂ (hold c₁ k' h₁).2 (hold c₂ k' h₂).2,
      fun k' c' hc => ?_, fun k' => ?_⟩
    · obtain ⟨hne, hc⟩ := hold c' k' hc
      have hk : k' ≠ k := fun e => hne (h.tapLock k c c' hlock (e ▸ hc))
      simpa [setTap, Holdings.move_of_ne, hk] using h.waiting k' c' hc
    · by_cases hk : k' = k
      · subst hk
        simp [setTap, Holdings.move_target, Holdings.move_of_ne, hreceived, hreading]
      · simpa [setTap, Holdings.move_of_ne, hk] using h.received k'
  | @shmat k t hp =>
    refine ⟨h.tapLock, fun k' c' hc => ?_, fun k' => ?_⟩
    · have hk : k' ≠ k := fun e => by
        have hnil := (h.waiting k' c' hc).1
        rw [e, hp] at hnil
        cases hnil
      simpa [Holdings.move_of_ne, hk] using h.waiting k' c' hc
    · have hk' := h.received k'
      by_cases hk : k' = k
      · subst hk
        simp [Holdings.move_source, Holdings.move_target, hp] at hk' ⊢
        exact hk'
      · simpa [Holdings.move_of_ne, hk] using hk'
  | @shmatFails k =>
    have hdrop (q : TokenPlace C K) :
        (Custody.take s.tokens (.inl (.received k)) q).Sublist (s.tokens q) := take_sublist q
    exact h.of_tokens (fun _ _ hc => hc) (fun k' => hdrop (.inl (.received k')))
      fun k' => hdrop (.inl (.reading k'))
  | @finish k =>
    have hdrop (q : TokenPlace C K) :
        (Custody.take s.tokens (.inl (.reading k)) q).Sublist (s.tokens q) := take_sublist q
    exact h.of_tokens (fun _ _ hc => hc) (fun k' => hdrop (.inl (.received k')))
      fun k' => hdrop (.inl (.reading k'))
  | pop =>
    refine h.of_tokens (fun c k hc => ?_) (fun k => ?_) fun k => ?_
    · exact (congrFun (Function.update_eq_self _ s.tapLock) c).symm.trans hc
    · simp [setTap, Holdings.move_of_ne]
    · simp [setTap, Holdings.move_of_ne]
  | infuse | turnHanded =>
    exact h.of_tokens (fun _ _ hc => hc) (fun k => by simp [Holdings.put_of_ne])
      fun k => by simp [Holdings.put_of_ne]
  | shmdt | send | requireLocal | requireRemote | get | release | push | route | write | delayclean
  | reply =>
    exact h.of_tokens (fun _ _ hc => hc) (fun k => by simp [Holdings.move_of_ne])
      fun k => by simp [Holdings.move_of_ne]
  | delaycleanRelease =>
    exact h.of_tokens (fun _ _ hc => hc)
      (fun k => by simp [Holdings.move_of_ne, Holdings.drop_of_ne])
      fun k => by simp [Holdings.move_of_ne, Holdings.drop_of_ne]
  | sendFails | shmrm | routeNowhere =>
    exact h.of_tokens (fun _ _ hc => hc) (fun k => by simp [Holdings.drop_of_ne])
      fun k => by simp [Holdings.drop_of_ne]
  | _ => exact h.of_tokens (fun _ _ hc => hc) (fun _ => .refl _) fun _ => .refl _

/-- The inner loop has bytes of the chunk. -/
def ReadersHold (s : Node C K R W) : Prop :=
  ∀ i r p size, s.rlock i = some (r, .reading p size) → 0 < p.length

omit [DecidableEq C] [DecidableEq K] [DecidableEq R] [DecidableEq W] in
private theorem ReadersHold.of_setRlock (h : s.ReadersHold) {i : ℕ} {rlock : Option (R × Reading)}
    (hrlock : s'.rlock = Function.update s.rlock i rlock)
    (hreading : ∀ r p size, rlock = some (r, .reading p size) → 0 < p.length) : s'.ReadersHold := by
  intro i' r p size hi
  rw [hrlock] at hi
  by_cases hii : i' = i
  · subst hii
    rw [Function.update_self] at hi
    exact hreading r p size hi
  · rw [Function.update_of_ne hii] at hi
    exact h i' r p size hi

private theorem pos_of_inner {p p' : List UInt8} {size size' : ℕ}
    (h : Reading.inner p size = .reading p' size') : 0 < p'.length := by
  rw [Reading.inner] at h
  split at h
  · cases h
  · rename_i hne
    cases h
    exact List.length_pos_iff.mpr hne

theorem readersHold_step (h : s.ReadersHold) (hstep : NodeStep config shmmax s a s') :
    s'.ReadersHold := by
  by_cases ha : a.isQuiet = true
  · intro i r p size hi
    rw [(quiet_step ha hstep).rlock] at hi
    exact h i r p size hi
  cases hstep with
  | push | pop | route | routeNowhere | trylock | empty | write | delayclean | delaycleanRelease
  | transmit | unlock => exact h
  | lock | again | loop | loopEnds =>
    refine h.of_setRlock rfl fun r p size he => ?_
    cases he
  | recv hlock hpos =>
    refine h.of_setRlock rfl fun r p size he => ?_
    cases he
    exact hpos
  | turn | next =>
    refine h.of_setRlock rfl fun r p size he => ?_
    exact pos_of_inner (congrArg Prod.snd (Option.some.inj he))
  | turnHanded =>
    refine h.of_setRlock rfl fun r p size he => ?_
    cases he
  | _ => exact absurd rfl ha

/-- What holds of a host in every run. -/
structure Invariant (s : Node C K R W) : Prop where
  kept : s.Kept
  writer : s.WriterHolds
  queues : s.QueuesHold
  taps : s.TapsHold
  clients : s.ClientsHold
  readers : s.ReadersHold

omit [DecidableEq C] [DecidableEq K] [DecidableEq R] [DecidableEq W] in
theorem invariant_init : (init : Node C K R W).Invariant where
  kept := .init
  writer := ⟨rfl, fun _ _ _ _ h => absurd h (Option.some_ne_none _).symm⟩
  queues _ := rfl
  taps _ := rfl
  clients := ⟨fun _ _ _ h => absurd h (Option.some_ne_none _).symm, fun _ _ _ => ⟨rfl, rfl⟩,
    fun _ => Nat.zero_le 1⟩
  readers _ _ _ _ h := absurd h (Option.some_ne_none _).symm

theorem Invariant.step (h : s.Invariant) (hstep : NodeStep config shmmax s a s') :
    s'.Invariant where
  kept := kept_step h.kept h.writer hstep
  writer := writerHolds_step h.writer hstep
  queues := queuesHold_step h.queues hstep
  taps := tapsHold_step h.taps hstep
  clients := clientsHold_step h.clients hstep
  readers := readersHold_step h.readers hstep

end Node

end Nynn
