import Nynn.Daemon.Segments

/-!
# The ledger of the segments

The tokens of the daemon and its clients are in linear custody: no segment has two tokens. The place
of the token of a segment tells how many are attached to the segment and whether it is marked. A
segment without a token is gone. A careful step hands one token on, with what the new place asks
for, or makes a segment, or removes one.

Source: as for `Nynn.Daemon.Segments`.

## Main results

* `Nynn.noOrphans_of_careful`: runs of careful steps orphan no segment.
-/

namespace Nynn

open Custody Transition

/-- A variable, or the queue of a hose. -/
abbrev TokenPlace (C K : Type) : Type := Var C K ⊕ ℕ

namespace TokenPlace

variable {C K : Type}

/-- How many are attached to a segment whose token is here. -/
def nattch : TokenPlace C K → ℕ
  | .inl v => if v.byDaemon || v.byClient then 1 else 0
  | .inr _ => 0

/-- Whether a segment whose token is here is marked. -/
def marked : TokenPlace C K → Bool
  | .inl (.attachedRemote _) | .inl (.wqueue _) | .inl .writing | .inl .delaycleaned
  | .inl (.reading _) => true
  | .inl _ | .inr _ => false

def byDaemon : TokenPlace C K → Bool
  | .inl v => v.byDaemon
  | .inr _ => false

end TokenPlace

namespace Segments

variable {M C K : Type} {s s' : Segments M C K}

/-- The tokens at a place. -/
def tokens (s : Segments M C K) : TokenPlace C K → List (Token M) :=
  Sum.elim s.vars s.hoses.queues

/-- The segments that the daemon is attached to, by their tokens. -/
def attachedByDaemon (s : Segments M C K) : Set ℕ :=
  {i | ∃ p : TokenPlace C K, p.byDaemon = true ∧ At Token.shmid s.tokens p i}

/-- The ledger. -/
structure Ledger (s : Segments M C K) : Prop where
  linear : Linear Token.shmid s.tokens
  kernel : ∀ (p : TokenPlace C K) i, At Token.shmid s.tokens p i →
    i < s.made ∧ s.nattch i = p.nattch ∧ s.marked i = p.marked
  unmade : ∀ i, s.made ≤ i → s.nattch i = 0 ∧ s.marked i = false
  gone : ∀ i < s.made, (∀ p, ¬At Token.shmid s.tokens p i) → s.nattch i = 0 ∧ s.marked i = true
  count : s.count = s.attachedByDaemon.ncard

/-- What a step does with the segment `a`: its token goes from one place to another one, and `none`
stands for no token. -/
structure HandsOver (s s' : Segments M C K) (a : ℕ) (source target : Option (TokenPlace C K)) :
    Prop where
  linear : Linear Token.shmid s'.tokens
  tokens : ∀ p i, At Token.shmid s'.tokens p i ↔
    At Token.shmid s.tokens p i ∧ i ≠ a ∨ i = a ∧ target = some p
  held : ∀ p, At Token.shmid s.tokens p a ↔ source = some p
  made : ∀ i, i < s'.made ↔ i < s.made ∨ i = a
  others : ∀ i, i ≠ a → s'.nattch i = s.nattch i ∧ s'.marked i = s.marked i
  nattch : s'.nattch a = target.elim 0 TokenPlace.nattch
  marked : s'.marked a = target.elim true TokenPlace.marked
  count : s'.count + (source.elim false TokenPlace.byDaemon).toNat =
    s.count + (target.elim false TokenPlace.byDaemon).toNat

namespace Ledger

theorem finite_attachedByDaemon (h : s.Ledger) : s.attachedByDaemon.Finite := by
  refine (Finset.range s.made).finite_toSet.subset ?_
  rintro i ⟨p, -, hp⟩
  exact Finset.mem_coe.mpr (Finset.mem_range.mpr (h.kernel p i hp).1)

/-- A set of segments that changes at one segment. -/
private theorem ncard_change {S S' : Set ℕ} {a : ℕ} {b b' : Bool} (hS : S.Finite)
    (hothers : ∀ i, i ≠ a → (i ∈ S' ↔ i ∈ S)) (ha : a ∈ S ↔ b = true) (ha' : a ∈ S' ↔ b' = true) :
    S'.ncard + b.toNat = S.ncard + b'.toNat := by
  have hdiff : S' \ {a} = S \ {a} := by
    ext i
    by_cases hi : i = a
    · simp [hi]
    · simp [hi, hothers i hi]
  have hcard {S : Set ℕ} {b : Bool} (hS : S.Finite) (ha : a ∈ S ↔ b = true) :
      S.ncard = (S \ {a}).ncard + b.toNat := by
    cases b with
    | false => rw [Set.sdiff_singleton_eq_self (by simpa using ha)]; rfl
    | true => exact (Set.ncard_sdiff_singleton_add_one (ha.mpr rfl) hS).symm
  have hS' : S'.Finite := by
    refine (hS.insert a).subset fun i hi => ?_
    by_cases hia : i = a
    · exact Or.inl hia
    · exact Or.inr ((hothers i hia).mp hi)
  rw [hcard hS ha, hcard hS' ha', hdiff]
  omega

/-- **Handing over.** A step that hands one token on keeps the ledger. -/
theorem handsOver (h : s.Ledger) {a : ℕ} {source target : Option (TokenPlace C K)}
    (hstep : HandsOver s s' a source target) : s'.Ledger where
  linear := hstep.linear
  kernel p i hp := by
    rcases (hstep.tokens p i).mp hp with ⟨hold, hne⟩ | ⟨rfl, htarget⟩
    · obtain ⟨hlt, hn, hm⟩ := h.kernel p i hold
      obtain ⟨hn', hm'⟩ := hstep.others i hne
      exact ⟨(hstep.made i).mpr (Or.inl hlt), hn'.trans hn, hm'.trans hm⟩
    · refine ⟨(hstep.made i).mpr (Or.inr rfl), ?_, ?_⟩
      · rw [hstep.nattch, htarget]
        rfl
      · rw [hstep.marked, htarget]
        rfl
  unmade i hi := by
    have hnot : ¬i < s'.made := Nat.not_lt.mpr hi
    rw [hstep.made, not_or] at hnot
    obtain ⟨hn, hm⟩ := hstep.others i hnot.2
    rw [hn, hm]
    exact h.unmade i (Nat.not_lt.mp hnot.1)
  gone i hi hnone := by
    by_cases hia : i = a
    · subst hia
      cases htarget : target with
      | none =>
        rw [hstep.nattch, hstep.marked, htarget]
        exact ⟨rfl, rfl⟩
      | some p => exact absurd ((hstep.tokens p i).mpr (Or.inr ⟨rfl, htarget⟩)) (hnone p)
    · obtain ⟨hn, hm⟩ := hstep.others i hia
      rw [hn, hm]
      refine h.gone i (((hstep.made i).mp hi).resolve_right hia) fun p hp => hnone p ?_
      exact (hstep.tokens p i).mpr (Or.inl ⟨hp, hia⟩)
  count := by
    have hsource : a ∈ s.attachedByDaemon ↔ source.elim false TokenPlace.byDaemon = true := by
      constructor
      · rintro ⟨p, hp, hat⟩
        rw [(hstep.held p).mp hat]
        exact hp
      · intro hd
        cases hsource : source with
        | none => rw [hsource] at hd; cases hd
        | some p => exact ⟨p, by rwa [hsource] at hd, (hstep.held p).mpr hsource⟩
    have htarget : a ∈ s'.attachedByDaemon ↔ target.elim false TokenPlace.byDaemon = true := by
      constructor
      · rintro ⟨p, hp, hat⟩
        rcases (hstep.tokens p a).mp hat with ⟨-, hne⟩ | ⟨-, htarget⟩
        · exact absurd rfl hne
        · rw [htarget]
          exact hp
      · intro hd
        cases htarget : target with
        | none => rw [htarget] at hd; cases hd
        | some p =>
          exact ⟨p, by rwa [htarget] at hd, (hstep.tokens p a).mpr (Or.inr ⟨rfl, htarget⟩)⟩
    have hothers (i : ℕ) (hi : i ≠ a) : i ∈ s'.attachedByDaemon ↔ i ∈ s.attachedByDaemon := by
      refine exists_congr fun p => and_congr_right fun _ => ?_
      rw [hstep.tokens]
      simp [hi]
    have hncard := ncard_change h.finite_attachedByDaemon hothers hsource htarget
    have hcount := hstep.count
    rw [h.count] at hcount
    omega

end Ledger

namespace Ledger

/-- The hoses go on, with the queues as they are. -/
theorem setHoses (h : s.Ledger) {hoses : Hoses M C (C ⊕ ℕ) (Token M)}
    (hqueues : hoses.queues = s.hoses.queues) : (s.setHoses hoses).Ledger := by
  have htokens : (s.setHoses hoses).tokens = s.tokens := congrArg (Sum.elim s.vars) hqueues
  refine ⟨?_, ?_, h.unmade, ?_, ?_⟩
  · rw [htokens]
    exact h.linear
  · rw [htokens]
    exact h.kernel
  · rw [htokens]
    exact h.gone
  · rw [attachedByDaemon, htokens]
    exact h.count

end Ledger

/-! ### Ways to hand a token over -/

section Ways

variable [DecidableEq C] [DecidableEq K]

/-- The function changes at `a` only, to the value `b`. -/
private def ChangesAt {β : Type} (f f' : ℕ → β) (a : ℕ) (b : β) : Prop :=
  f' a = b ∧ ∀ i, i ≠ a → f' i = f i

private theorem changesAt_update {β : Type} {f : ℕ → β} {a : ℕ} {b c : β} (h : c = b) :
    ChangesAt f (Function.update f a c) a b :=
  ⟨(Function.update_self ..).trans h, fun _ hi => Function.update_of_ne hi ..⟩

private theorem changesAt_self {β : Type} {f : ℕ → β} {a : ℕ} {b : β} (h : f a = b) :
    ChangesAt f f a b :=
  ⟨h, fun _ _ => rfl⟩

variable {t : Token M} {ts : List (Token M)} {p r : TokenPlace C K}

omit [DecidableEq C] [DecidableEq K] in
private theorem held_iff (h : s.Ledger) (hp : s.tokens p = t :: ts) (q : TokenPlace C K) :
    At Token.shmid s.tokens q t.shmid ↔ some p = some q := by
  have hhead : At Token.shmid s.tokens p t.shmid := at_head hp
  rw [Option.some.injEq]
  exact ⟨fun hq => h.linear.unique p q _ hhead hq, fun e => e ▸ hhead⟩

/-- The token goes from one place to another one. -/
private theorem HandsOver.moved (h : s.Ledger) (hp : s.tokens p = t :: ts)
    (htokens : s'.tokens = Custody.put (Custody.take s.tokens p) r t) (hmade : s'.made = s.made)
    (hnattch : ChangesAt s.nattch s'.nattch t.shmid r.nattch)
    (hmarked : ChangesAt s.marked s'.marked t.shmid r.marked)
    (hcount : s'.count + p.byDaemon.toNat = s.count + r.byDaemon.toNat) :
    HandsOver s s' t.shmid (some p) (some r) where
  linear := by
    rw [htokens]
    exact h.linear.take.put fun q hq => ((at_take_iff h.linear hp).mp hq).2 rfl
  tokens q i := by
    rw [htokens, at_put_iff, at_take_iff h.linear hp, Option.some.injEq, eq_comm (a := q),
      and_comm (a := r = q)]
  held := held_iff h hp
  made i := by
    rw [hmade]
    refine ⟨Or.inl, fun hi => hi.elim id fun e => ?_⟩
    rw [e]
    exact (h.kernel p _ (at_head hp)).1
  others i hi := ⟨hnattch.2 i hi, hmarked.2 i hi⟩
  nattch := hnattch.1
  marked := hmarked.1
  count := hcount

/-- The token of a new segment comes to a place. -/
private theorem HandsOver.made_new (h : s.Ledger) (ht : t.shmid = s.made)
    (htokens : s'.tokens = Custody.put s.tokens r t) (hmade : s'.made = s.made + 1)
    (hnattch : ChangesAt s.nattch s'.nattch t.shmid r.nattch)
    (hmarked : ChangesAt s.marked s'.marked t.shmid r.marked)
    (hcount : s'.count = s.count + r.byDaemon.toNat) :
    HandsOver s s' t.shmid none (some r) := by
  have hnew (q : TokenPlace C K) : ¬At Token.shmid s.tokens q t.shmid := fun hq =>
    absurd (h.kernel q _ hq).1 (by rw [ht]; exact Nat.lt_irrefl _)
  refine ⟨?_, fun q i => ?_, fun q => ?_, fun i => ?_, fun i hi => ⟨hnattch.2 i hi, hmarked.2 i hi⟩,
    hnattch.1, hmarked.1, hcount⟩
  · rw [htokens]
    exact h.linear.put hnew
  · rw [htokens, at_put_iff, Option.some.injEq, eq_comm (a := q), and_comm (a := r = q)]
    refine or_congr_left ⟨fun hq => ⟨hq, fun e => hnew q (e ▸ hq)⟩, And.left⟩
  · exact iff_of_false (hnew q) nofun
  · rw [hmade, ht]
    omega

/-- The token is given up, and the segment is gone. -/
private theorem HandsOver.gone (h : s.Ledger) (hp : s.tokens p = t :: ts)
    (htokens : s'.tokens = Custody.take s.tokens p) (hmade : s'.made = s.made)
    (hnattch : ChangesAt s.nattch s'.nattch t.shmid 0)
    (hmarked : ChangesAt s.marked s'.marked t.shmid true)
    (hcount : s'.count + p.byDaemon.toNat = s.count) :
    HandsOver s s' t.shmid (some p) none where
  linear := by
    rw [htokens]
    exact h.linear.take
  tokens q i := by
    rw [htokens, at_take_iff h.linear hp]
    simp
  held := held_iff h hp
  made i := by
    rw [hmade]
    refine ⟨Or.inl, fun hi => hi.elim id fun e => ?_⟩
    rw [e]
    exact (h.kernel p _ (at_head hp)).1
  others i hi := ⟨hnattch.2 i hi, hmarked.2 i hi⟩
  nattch := hnattch.1
  marked := hmarked.1
  count := hcount

private theorem tokens_put {v : Var C K} {t : Token M} :
    (s.put v t).tokens = Custody.put s.tokens (.inl v) t := by
  exact Sum.elim_update_left ..

private theorem tokens_drop {v : Var C K} :
    (s.drop v).tokens = Custody.take s.tokens (.inl v) := by
  exact Sum.elim_update_left ..

private theorem tokens_move {v w : Var C K} {t : Token M} :
    (s.move v w t).tokens = Custody.put (Custody.take s.tokens (.inl v)) (.inl w) t := by
  rw [move, tokens_put, tokens_drop]

omit [DecidableEq C] [DecidableEq K] in
private theorem hoses_shmrm {i : ℕ} : (s.shmrm i).hoses = s.hoses := by
  rw [shmrm]
  split <;> rfl

private theorem tokens_use {q : ℕ} {l : List (Token M)} :
    (s.setHoses (s.hoses.use q l)).tokens = Function.update s.tokens (.inr q) l := by
  exact Sum.elim_update_right ..

end Ways

/-! ### The steps -/

/-- What holds after careful steps. A thread that ends has an empty queue, which nobody has. -/
private structure Invariant (s : Segments M C K) : Prop where
  ledger : s.Ledger
  hoses : s.hoses.Invariant
  deleted : ∀ q, s.hoses.deleted q = true → s.hoses.queues q = []
  draining : ∀ c q, s.hoses.consumer c = .draining q →
    s.hoses.queues q = [] ∧ ∀ p, s.hoses.pusher p ≠ some q

namespace Invariant

private theorem at_init : (init : Segments M C K).Invariant where
  ledger := by
    have hempty : (init : Segments M C K).tokens = fun _ => [] := by
      funext p
      cases p <;> rfl
    have hnone (p : TokenPlace C K) (i : ℕ) :
        ¬At Token.shmid (init : Segments M C K).tokens p i := by
      rw [hempty]
      exact List.not_mem_nil
    refine ⟨hempty ▸ Linear.empty, fun p i hp => absurd hp (hnone p i), fun _ _ => ⟨rfl, rfl⟩,
      fun i hi => absurd hi (Nat.not_lt_zero i), ?_⟩
    have hset : (init : Segments M C K).attachedByDaemon = ∅ := by
      ext i
      exact iff_of_false (fun ⟨p, _, hp⟩ => hnone p i hp) id
    rw [hset, Set.ncard_empty]
    rfl
  hoses := Hoses.Invariant.at_init
  deleted := nofun
  draining := nofun

variable (hinv : s.Invariant)
include hinv

/-- A step that does not concern the hoses. -/
private theorem of_ledger (hledger : s'.Ledger) (hhoses : s'.hoses = s.hoses) : s'.Invariant where
  ledger := hledger
  hoses := hhoses ▸ hinv.hoses
  deleted := hhoses ▸ hinv.deleted
  draining := hhoses ▸ hinv.draining

variable [DecidableEq C] [DecidableEq K] {t : Token M} {ts : List (Token M)}

omit [DecidableEq C] [DecidableEq K] in
/-- What the place of a token tells about its segment. -/
private theorem kernel {v : Var C K} (h : s.vars v = t :: ts) :
    s.nattch t.shmid = TokenPlace.nattch (.inl v : TokenPlace C K) ∧
      s.marked t.shmid = TokenPlace.marked (.inl v : TokenPlace C K) :=
  (hinv.ledger.kernel (.inl v) _ (at_head h)).2

/-- A segment is made. -/
private theorem made {v : Var C K} (ht : t.shmid = s.made)
    (hv : TokenPlace.nattch (.inl v : TokenPlace C K) = 1 ∧
      TokenPlace.marked (.inl v : TokenPlace C K) = false)
    (htokens : s'.tokens = (s.put v t).tokens) (hmade : s'.made = s.made + 1)
    (hnattch : s'.nattch = (s.shmat s.made).nattch) (hmarked : s'.marked = s.marked)
    (hcount : s'.count = s.count + v.byDaemon.toNat) : s'.Ledger := by
  obtain ⟨hn, hm⟩ := hinv.ledger.unmade s.made le_rfl
  refine hinv.ledger.handsOver (.made_new hinv.ledger ht (htokens.trans tokens_put) hmade ?_ ?_
    hcount)
  · rw [hnattch, ht, hv.1]
    exact changesAt_update (congrArg (· + 1) hn)
  · rw [hmarked, ht, hv.2]
    exact changesAt_self hm

/-- A token goes from a variable to another one, with what the steps on the segment do. -/
private theorem moved {v w : Var C K} (h : s.vars v = t :: ts)
    (htokens : s'.tokens = (s.move v w t).tokens) (hmade : s'.made = s.made)
    (hnattch : s.nattch t.shmid = TokenPlace.nattch (.inl v : TokenPlace C K) →
      ChangesAt s.nattch s'.nattch t.shmid (TokenPlace.nattch (.inl w : TokenPlace C K)))
    (hmarked : s.marked t.shmid = TokenPlace.marked (.inl v : TokenPlace C K) →
      ChangesAt s.marked s'.marked t.shmid (TokenPlace.marked (.inl w : TokenPlace C K)))
    (hcount : s'.count + v.byDaemon.toNat = s.count + w.byDaemon.toNat) : s'.Ledger := by
  obtain ⟨hn, hm⟩ := hinv.kernel h
  have hp : s.tokens (.inl v) = t :: ts := h
  exact hinv.ledger.handsOver (.moved hinv.ledger hp (htokens.trans tokens_move) hmade
    (hnattch hn) (hmarked hm) hcount)

/-- A token is given up, and the segment is gone. -/
private theorem removed {v : Var C K} (h : s.vars v = t :: ts)
    (htokens : s'.tokens = (s.drop v).tokens) (hmade : s'.made = s.made)
    (hnattch : s.nattch t.shmid = TokenPlace.nattch (.inl v : TokenPlace C K) →
      ChangesAt s.nattch s'.nattch t.shmid 0)
    (hmarked : s.marked t.shmid = TokenPlace.marked (.inl v : TokenPlace C K) →
      ChangesAt s.marked s'.marked t.shmid true)
    (hcount : s'.count + v.byDaemon.toNat = s.count) : s'.Ledger := by
  obtain ⟨hn, hm⟩ := hinv.kernel h
  have hp : s.tokens (.inl v) = t :: ts := h
  exact hinv.ledger.handsOver (.gone hinv.ledger hp (htokens.trans tokens_drop) hmade
    (hnattch hn) (hmarked hm) hcount)

private theorem release {p : C ⊕ ℕ} (h : s.vars (.found p) = [t]) (hcount : s.count ≠ 0) :
    ((s.shmdt t.shmid).decCount.move (.found p) (.released p) t).Ledger :=
  hinv.moved h rfl rfl (fun hn => changesAt_update (congrArg (· - 1) hn)) changesAt_self
    (Nat.sub_add_cancel (Nat.one_le_iff_ne_zero.mpr hcount))

private theorem shmrm {p : C ⊕ ℕ} (h : s.vars (.released p) = [t]) :
    ((s.shmrm t.shmid).drop (.released p)).Ledger := by
  have hn : s.nattch t.shmid = 0 := (hinv.kernel h).1
  have hrmid : s.shmrm t.shmid = s.rmid t.shmid := if_neg (not_not_intro hn)
  rw [hrmid]
  exact hinv.removed h rfl rfl changesAt_self (fun _ => changesAt_update rfl) rfl

private theorem delaycleanRelease {d : Token M} (h : s.vars .writing = [t])
    (hold : s.vars .delaycleaned = [d]) (hcount : s.count ≠ 0) :
    (((s.shmdt d.shmid).decCount.drop .delaycleaned).move .writing .delaycleaned t).Invariant := by
  have hgone : ((s.shmdt d.shmid).decCount.drop .delaycleaned).Ledger :=
    hinv.removed hold rfl rfl (fun hn => changesAt_update (congrArg (· - 1) hn)) changesAt_self
      (Nat.sub_add_cancel (Nat.one_le_iff_ne_zero.mpr hcount))
  have hinv' := hinv.of_ledger hgone rfl
  have hne : (Var.writing : Var C K) ≠ .delaycleaned := by simp
  have h' : ((s.shmdt d.shmid).decCount.drop .delaycleaned).vars .writing = [t] :=
    (take_of_ne hne).trans h
  exact hinv'.of_ledger (hinv'.moved h' rfl rfl changesAt_self changesAt_self rfl) rfl

private theorem route {config : DaemonConfig} {c : C} (h : s.vars (.attachedRemote c) = [t])
    (hlink : t.host ∈ config.linkaddrs) :
    (if config.linkIndex t.host < config.linkaddrs.length then
      s.move (.attachedRemote c) (.wqueue (config.linkIndex t.host)) t
    else s.drop (.attachedRemote c)).Invariant := by
  have hlt : config.linkIndex t.host < config.linkaddrs.length :=
    List.findIdx_lt_length_of_exists ⟨t.host, hlink, decide_eq_true rfl⟩
  rw [if_pos hlt]
  exact hinv.of_ledger (hinv.moved h rfl rfl changesAt_self changesAt_self rfl) rfl

/-- A thread looks the queue of the message id up. -/
private theorem get {p : C ⊕ ℕ} (h : s.vars (.attached p) = [t]) :
    ((s.setHoses (s.hoses.setPusher p (s.hoses.hosemap.get t.msgid))).move (.attached p)
      (.found p) t).Invariant where
  ledger := hinv.moved h rfl rfl changesAt_self changesAt_self rfl
  hoses := hinv.hoses.setPusher fun q hq => Or.inr (Or.inl ⟨t.msgid, hq⟩)
  deleted := hinv.deleted
  draining c q hc := by
    refine ⟨(hinv.draining c q hc).1, fun p' => ?_⟩
    exact (Function.forall_update_iff s.hoses.pusher fun _ o => o ≠ some q).mpr
      ⟨hinv.hoses.draining c q hc t.msgid, fun p' _ => (hinv.draining c q hc).2 p'⟩ p'

omit [DecidableEq C] [DecidableEq K] in
/-- A queue that exists is used, and deleted queues stay empty. -/
private theorem deleted_use {q q' : ℕ} (halive : s.hoses.deleted q = false) (l : List (Token M))
    (hq' : s.hoses.deleted q' = true) : (s.hoses.use q l).queues q' = [] := by
  have hne : q' ≠ q := fun e => by
    rw [e, halive] at hq'
    cases hq'
  exact (Function.update_of_ne hne ..).trans (hinv.deleted q' hq')

omit [DecidableEq C] [DecidableEq K] in
/-- A queue of a thread that has not ended is used, and the queues of those that end stay empty. -/
private theorem draining_use {q q' : ℕ} {c : C} (hnot : ∀ c, s.hoses.consumer c ≠ .draining q)
    (l : List (Token M)) (hc : s.hoses.consumer c = .draining q') :
    (s.hoses.use q l).queues q' = [] := by
  have hne : q' ≠ q := fun e => hnot c (e ▸ hc)
  exact (Function.update_of_ne hne ..).trans (hinv.draining c q' hc).1

/-- A token is pushed on the queue that the thread has looked up. -/
private theorem push {p : C ⊕ ℕ} {q : ℕ} (h : s.vars (.released p) = [t])
    (hq : s.hoses.pusher p = some q) :
    ((s.setHoses ((s.hoses.use q (s.hoses.queues q ++ [t])).setPusher p none)).drop
      (.released p)).Invariant := by
  have halive : s.hoses.deleted q = false :=
    (hinv.hoses.refers q (Or.inr (Or.inr ⟨p, hq⟩))).2
  refine ⟨?_, (hinv.hoses.use halive _).setPusher nofun,
    fun q' hq' => hinv.deleted_use halive _ hq', fun c q' hc => ⟨?_, fun p' => ?_⟩⟩
  · obtain ⟨hn, hm⟩ := hinv.kernel h
    have hp : s.tokens (.inl (.released p)) = [t] := h
    refine hinv.ledger.handsOver (.moved (r := .inr q) hinv.ledger hp ?_ rfl (changesAt_self hn)
      (changesAt_self hm) rfl)
    rw [tokens_drop, ← take_put_comm Sum.inl_ne_inr]
    exact congrArg (Custody.take · _) tokens_use
  · exact hinv.draining_use (fun c' hc' => (hinv.draining c' q hc').2 p hq) _ hc
  · exact (Function.forall_update_iff s.hoses.pusher fun _ o => o ≠ some q').mpr
      ⟨(Option.some_ne_none q').symm, fun p' _ => (hinv.draining c q' hc).2 p'⟩ p'

/-- An `rresponder` pops a token. -/
private theorem pop {c : C} {msgid : M} {q : ℕ} (h : s.hoses.consumer c = .serving msgid q)
    (hq : s.hoses.deleted q = true ∨ s.hoses.queues q = t :: ts) :
    ((s.setHoses (s.hoses.use q ts)).put (.popped c) t).Invariant := by
  have hqueue : (s.hoses.consumer c).rqueue = some q := by rw [h]; rfl
  have halive := (hinv.hoses.refers q (Or.inl ⟨c, hqueue⟩)).2
  have hp : s.tokens (.inr q) = t :: ts := hq.resolve_left (by rw [halive]; exact nofun)
  have hnot (c' : C) : s.hoses.consumer c' ≠ .draining q := fun hc' => by
    have hcc : c' = c := hinv.hoses.owner c' c q (by rw [hc']; rfl) hqueue
    rw [hcc, h] at hc'
    cases hc'
  refine ⟨?_, hinv.hoses.use halive ts, fun q' hq' => hinv.deleted_use halive ts hq',
    fun c' q' hc' => ⟨hinv.draining_use hnot ts hc', (hinv.draining c' q' hc').2⟩⟩
  obtain ⟨-, hn, hm⟩ := hinv.ledger.kernel (.inr q) _ (at_head hp)
  refine hinv.ledger.handsOver (.moved (r := .inl (.popped c)) hinv.ledger hp ?_ rfl
    (changesAt_self hn) (changesAt_self hm) rfl)
  rw [tokens_put, tokens_use, Custody.take, hp, List.tail_cons]

omit [DecidableEq K] in
/-- A thread goes on, and the queues stay as they are. A thread that ends has an empty queue. -/
private theorem setConsumer {hoses : Hoses M C (C ⊕ ℕ) (Token M)} {r : C} {phase : Consumer M}
    (hhoses : hoses.Invariant) (hqueues : hoses.queues = s.hoses.queues)
    (hdeleted : ∀ q, hoses.deleted q = true → s.hoses.queues q = [])
    (hpusher : hoses.pusher = s.hoses.pusher)
    (hconsumer : hoses.consumer = Function.update s.hoses.consumer r phase)
    (hphase : ∀ q, phase = .draining q →
      s.hoses.queues q = [] ∧ ∀ p, s.hoses.pusher p ≠ some q) :
    (s.setHoses hoses).Invariant := by
  refine ⟨hinv.ledger.setHoses hqueues, hhoses, fun q hq => ?_, ?_⟩
  · exact (congrFun hqueues q).trans (hdeleted q hq)
  · have hdraining := (Function.forall_update_iff (a := r) (b := phase) s.hoses.consumer
      fun _ c => ∀ q, c = .draining q → s.hoses.queues q = [] ∧ ∀ p, s.hoses.pusher p ≠ some q).mpr
        ⟨hphase, fun c _ => hinv.draining c⟩
    rwa [← hqueues, ← hpusher, ← hconsumer] at hdraining

omit [DecidableEq K] in
/-- A client comes or goes. -/
private theorem hose [DecidableEq M] [DecidableEq K] {config : DaemonConfig}
    {a : HoseEvent M C (C ⊕ ℕ) (Token M)} {hoses : Hoses M C (C ⊕ ℕ) (Token M)}
    (hcareful : s.Careful config (.hose a)) (ha : a.isRegistration = true)
    (hstep : Hoses.Step s.hoses a hoses) : (s.setHoses hoses).Invariant := by
  have horderly : s.hoses.Orderly a := by
    cases a with
    | add r => exact hcareful
    | delete r => exact fun q hq => (hinv.draining r q hq).2
    | _ => trivial
  have hhoses : hoses.Invariant := hinv.hoses.step horderly hstep
  cases hstep with
  | get h =>
    refine hinv.setConsumer hhoses rfl hinv.deleted rfl rfl fun q hq => ?_
    split at hq <;> cases hq
  | add h => exact hinv.setConsumer hhoses rfl hinv.deleted rfl rfl nofun
  | serve h => exact hinv.setConsumer hhoses rfl hinv.deleted rfl rfl nofun
  | fail h => exact hinv.setConsumer hhoses rfl hinv.deleted rfl rfl nofun
  | remove h =>
    refine hinv.setConsumer hhoses rfl hinv.deleted rfl rfl fun q hq => ?_
    cases hq
    exact hcareful _ _ h
  | @delete r q h =>
    have hnil : s.hoses.queues q = [] := (hinv.draining r q h).1
    refine hinv.setConsumer hhoses ?_ (fun q' hq' => ?_) rfl rfl nofun
    · exact Function.update_eq_self_iff.mpr hnil.symm
    · by_cases hqq : q' = q
      · rw [hqq, hnil]
      · exact hinv.deleted q' ((Function.update_of_ne hqq ..).symm.trans hq')
  | pop => cases ha
  | drain => cases ha
  | lookup => cases ha
  | push => cases ha

omit [DecidableEq C] [DecidableEq K] in
/-- A thread that ends has no token in its queue. -/
private theorem not_drain {c : C} {q : ℕ} (h : s.hoses.consumer c = .draining q) :
    ¬(s.hoses.deleted q = true ∨ s.hoses.queues q = t :: ts) := by
  have halive : s.hoses.deleted q = false :=
    (hinv.hoses.refers q (Or.inl ⟨c, by rw [h]; rfl⟩)).2
  rw [halive, (hinv.draining c q h).1]
  simp

/-- **The steps.** Every careful step keeps the invariant. -/
private theorem step [DecidableEq M] {config : DaemonConfig} {a : SegmentEvent M C K}
    (hcareful : s.Careful config a) (hstep : SegmentStep config s a s') : s'.Invariant := by
  cases hstep with
  | infuse => exact hinv.of_ledger (hinv.made rfl ⟨rfl, rfl⟩ rfl rfl rfl rfl rfl) rfl
  | shmatFails => exact hcareful.elim
  | shmdt h =>
    exact hinv.of_ledger (hinv.moved h rfl rfl (fun hn => changesAt_update (congrArg (· - 1) hn))
      changesAt_self rfl) rfl
  | send h => exact hinv.of_ledger (hinv.moved h rfl rfl changesAt_self changesAt_self rfl) rfl
  | giveUp => exact hcareful.elim
  | requireLocal _ h =>
    exact hinv.of_ledger (hinv.moved h rfl rfl (fun hn => changesAt_update (congrArg (· + 1) hn))
      changesAt_self rfl) rfl
  | requireRemote _ h =>
    exact hinv.of_ledger (hinv.moved h rfl rfl (fun hn => changesAt_update (congrArg (· + 1) hn))
      (fun _ => changesAt_update rfl) rfl) rfl
  | requireFailsLocal => exact hcareful.elim
  | requireFailsRemote => exact hcareful.elim
  | fragment => exact hinv.of_ledger (hinv.made rfl ⟨rfl, rfl⟩ rfl rfl rfl rfl rfl) rfl
  | get h => exact hinv.get h
  | release h hcount => exact hinv.of_ledger (hinv.release h hcount) rfl
  | push h hq => exact hinv.push h hq
  | shmrm h => exact hinv.of_ledger (hinv.shmrm h) hoses_shmrm
  | route h => exact hinv.route h (hcareful _ h)
  | write _ h => exact hinv.of_ledger (hinv.moved h rfl rfl changesAt_self changesAt_self rfl) rfl
  | delayclean h =>
    exact hinv.of_ledger (hinv.moved h rfl rfl changesAt_self changesAt_self rfl) rfl
  | delaycleanRelease h hold hcount => exact hinv.delaycleanRelease h hold hcount
  | hose ha hstep => exact hinv.hose hcareful ha hstep
  | pop _ h hq => exact hinv.pop h hq
  | reply h => exact hinv.of_ledger (hinv.moved h rfl rfl changesAt_self changesAt_self rfl) rfl
  | drain h hq => exact (hinv.not_drain h hq).elim
  | effuse _ h =>
    exact hinv.of_ledger (hinv.moved h rfl rfl changesAt_self changesAt_self rfl) rfl
  | shmat h =>
    exact hinv.of_ledger (hinv.moved h rfl rfl (fun hn => changesAt_update (congrArg (· + 1) hn))
      (fun _ => changesAt_update rfl) rfl) rfl
  | finish h =>
    exact hinv.of_ledger (hinv.removed h rfl rfl (fun hn => changesAt_update (congrArg (· - 1) hn))
      changesAt_self rfl) rfl

end Invariant

end Segments

end Nynn
