import Quarrel.L4Acceptor.Run
import Quarrel.L4Proposer.Moves
import Quarrel.L4Proposer.OneReply
import Quarrel.L4Proposer.Votes

/-!
# The sizes of messages (`core/acceptor.cpp`, `core/proposer.cpp`, `core/ptype.cpp`)

A message says twice how long it is, in its own header and in the one of its proposal, and
whoever clones it believes the second. The handlers allocate a message with one size and copy a
proposal's header over it, or change both sizes in place.

* `PaxosMsg.WellFormed`: the two sizes agree and the buffer is as long as they say.
* `proposalsSized_reachable`: what an acceptor stores is as long as its header says.
* `Served.answersWell_iff`, `handleRsp_full`: one answer of the acceptor, one response to the
  proposer.
* `sizes_kept`: over a run. ACCEPT and CHOSEN are always answered well. A PREPARE that is turned
  down is answered with its own header and no value, which is right where it has none itself.
* `not_sizes_kept`: a PREPARE with a value whose promise is not saved.
-/
namespace Quarrel

open EntryMng InstanceState

/-- What a proposal takes. -/
def Proposal.bytes (p : Proposal) : Nat := proposalHeaderSz + p.data.length

/-- What follows the header of `m` is one proposal, of the length that both headers say. -/
structure PaxosMsg.WellFormed (m : PaxosMsg) : Prop where
  size : m.size = proposalHeaderSz + m.pp.size
  word : m.size < 2 ^ 32
  held : m.size ≤ m.pp.bytes

/-- The value is there, and fits into a message. -/
structure Proposal.Sized (p : Proposal) : Prop where
  held : p.size ≤ p.data.length
  word : proposalHeaderSz + p.size < 2 ^ 32

theorem PaxosMsg.WellFormed.sized {m : PaxosMsg} (h : m.WellFormed) : m.pp.Sized := by
  have hw := h.word
  have hh := h.held
  rw [h.size] at hw hh
  exact ⟨Nat.add_le_add_iff_left.mp hh, hw⟩

theorem Proposal.Sized.wellFormed {m : PaxosMsg} (h : m.pp.Sized)
    (hs : m.size = proposalHeaderSz + m.pp.size) : m.WellFormed :=
  ⟨hs, hs ▸ h.word, hs ▸ Nat.add_le_add_left h.held _⟩

theorem PaxosMsg.WellFormed.same {m m' : PaxosMsg} (h : m.WellFormed) (hs : m'.size = m.size)
    (hp : m'.pp.size = m.pp.size) (hd : m'.pp.data = m.pp.data) : m'.WellFormed := by
  refine ⟨?_, ?_, ?_⟩
  · rw [hs, hp]
    exact h.size
  · rw [hs]
    exact h.word
  · unfold Proposal.bytes
    rw [hs, hd]
    exact h.held

theorem sized_empty {p : Proposal} (h : p.size = 0) : p.Sized := by
  refine ⟨?_, ?_⟩ <;> rw [h]
  · exact Nat.zero_le _
  · decide

theorem Proposal.Sized.clone {p : Proposal} (h : p.Sized) : (cloneProposal p).Sized := by
  refine ⟨?_, h.word⟩
  change p.size ≤ (p.data.take p.size).length
  rw [List.length_take, Nat.min_eq_left h.held]

/-- A clone reads what is there and no more. -/
theorem PaxosMsg.WellFormed.clone {m : PaxosMsg} (h : m.WellFormed) :
    (cloneProposalMsg m).WellFormed :=
  Proposal.Sized.wellFormed (m := cloneProposalMsg m) h.sized.clone h.size

/-! ## The answers of an acceptor -/

/-- The proposals stored for an entry. -/
def Stored (m : EntryMng) (k : Nat) (p : Proposal) : Prop := HeldAccepted m k p ∨ HeldPromised m k p

def ProposalsSized (m : EntryMng) : Prop := ∀ k p, Stored m k p → p.Sized

/-- What the acceptor receives is well formed, and a restart reads its own log. -/
def ReceivesSized (a : Acceptor) (op : AcceptorOp) (_ : Acceptor) : Prop :=
  match op with
  | .request msg _ => msg.WellFormed
  | .restart i batch _ _ => ReadsLog batch (a.mngs i).disk

theorem Served.proposalsSized {m : EntryMng} {saves : Saves} {pp : Proposal} {t : PaxosMsgType}
    {h : Handled} (hs : Served m saves pp t h) (hpp : pp.Sized) (hm : ProposalsSized m) :
    ProposalsSized h.mng := by
  intro k p hp
  rcases hp with hp | hp
  · rcases hs.heldAccepted hp with hp | ⟨-, -, rfl⟩ | ⟨-, -, q, s, hq, -, -, -, rfl⟩
    · exact hm k p (.inl hp)
    · exact Proposal.Sized.clone (p := { pp with status := .accepted }) ⟨hpp.held, hpp.word⟩
    · have hsz := hm k q (.inl hq)
      exact ⟨hsz.held, hsz.word⟩
  · rcases hs.heldPromised hp with hp | ⟨-, -, rfl, -⟩
    · exact hm k p (.inr hp)
    · exact Proposal.Sized.clone (p := { pp with status := .promised }) ⟨hpp.held, hpp.word⟩

theorem proposalsSized_reachable {cfg : Configure} {a : Acceptor}
    (h : ((acceptorSys cfg).restrict ReceivesSized).Reachable a) (i : Nat) :
    0 < (a.mngs i).entries.maxSize ∧ ProposalsSized (a.mngs i) := by
  refine acceptor_invariant (I := fun _ => ProposalsSized) ?_ ?_ ?_ a h i
  · intro i k p hp
    rcases hp with ⟨x, hx, -⟩ | ⟨x, hx, -⟩ <;> exact absurd hx new_empty
  · intro a a' msg saves h hI hok hs
    exact hs.proposalsSized hok.sized (hI _).2
  · intro a a' j batch lastCommitted fuel m hI hok hm
    have hf := loadAllFromDisk_fromLog hok hm
    refine ⟨hf.cap, fun k p hp => ?_⟩
    have hlog : ∀ x, m.cached k = some x ∨ m.disk k = some x → (a.mngs j).disk k = some x := by
      intro x hx
      rcases hx with hx | hx
      · exact hf.cached k x hx
      · exact hf.disk ▸ hx
    rcases hp with ⟨x, hx, hxp⟩ | ⟨x, hx, hxp⟩
    · exact (hI j).2 k p (.inl ⟨x, .inr (hlog x hx), hxp⟩)
    · exact (hI j).2 k p (.inr ⟨x, .inr (hlog x hx), hxp⟩)

/-- What `memcpy` copies into the response to a PREPARE; `vsize` is an `int` there, and the sum a
`size_t`. mirrors core/acceptor.cpp:154,207-213 -/
def prepareCopySz (vsize : Nat) : Nat :=
  ((proposalHeaderSz + (vsize : Int).bmod (2 ^ 32)) % 2 ^ 64).toNat

/-- The response to a message of type `t`: nothing is copied past its end, and it is well formed.
It was allocated for `sub32 rsp.size proposalHeaderSz` bytes. -/
structure AnswersWell (t : PaxosMsgType) (rsp : PaxosMsg) : Prop where
  copied : t = .prepareReq → prepareCopySz (sub32 rsp.size proposalHeaderSz) ≤ rsp.pp.bytes
  wellFormed : rsp.WellFormed

/-- A PREPARE that is turned down: its entry is not above the last chosen one, or its promise has
not been saved. -/
def TurnedDown (m : EntryMng) (saves : Saves) (pp : Proposal) : Prop :=
  Behind m pp ∨ ((m.opened pp.pentry).accepted = none ∧
    (∀ pr, (m.opened pp.pentry).promised = some pr → pr.pid < pp.pid) ∧ 0 < pp.pid ∧
    saves.set = false)

/-- The vote of the entry, the promise of the entry if it is not below the request, or the
request. -/
def bestKnown (m : EntryMng) (pp : Proposal) : Proposal :=
  match (m.opened pp.pentry).accepted, (m.opened pp.pentry).promised with
  | some a, _ => a
  | none, some pr => if pp.pid ≤ pr.pid then pr else pp
  | none, none => pp

/-- A PREPARE that is turned down has no value, and any other one is answered with a value that an
`int` can count. -/
structure PrepareFits (m : EntryMng) (saves : Saves) (pp : Proposal) : Prop where
  empty : TurnedDown m saves pp → pp.size = 0
  short : ¬ TurnedDown m saves pp → (bestKnown m pp).size < 2 ^ 31

theorem answersWell_congr {t : PaxosMsgType} {rsp rsp' : PaxosMsg} (hs : rsp'.size = rsp.size)
    (hp : rsp'.pp = rsp.pp) : AnswersWell t rsp' ↔ AnswersWell t rsp := by
  constructor
  · rintro ⟨hc, hw⟩
    rw [hs, hp] at hc
    exact ⟨hc, hw.same hs.symm (by rw [hp]) (by rw [hp])⟩
  · rintro ⟨hc, hw⟩
    rw [← hs, ← hp] at hc
    exact ⟨hc, hw.same hs (by rw [hp]) (by rw [hp])⟩

/-- An `int` that is not negative is copied in full, a negative one becomes a huge `size_t`. -/
theorem prepareCopySz_le_iff {vsize : Nat} (h : proposalHeaderSz + vsize < 2 ^ 32) :
    prepareCopySz vsize ≤ proposalHeaderSz + vsize ↔ vsize < 2 ^ 31 := by
  unfold prepareCopySz
  unfold proposalHeaderSz at h ⊢
  by_cases hlt : vsize < 2 ^ 31
  · have hb : (vsize : Int).bmod (2 ^ 32) = vsize := by
      rw [Int.bmod_eq_of_le] <;> omega
    rw [hb]
    exact iff_of_true (by omega) hlt
  · have hb : (vsize : Int).bmod (2 ^ 32) = vsize - 2 ^ 32 := by
      unfold Int.bmod
      rw [Int.emod_eq_of_lt (by omega) (by omega), if_neg (by omega)]
      rfl
    rw [hb]
    exact iff_of_false (by omega) hlt

theorem sub32_allocated {vsize : Nat} (h : proposalHeaderSz + vsize < 2 ^ 32) :
    u32 (proposalHeaderSz + vsize) = proposalHeaderSz + vsize ∧
      sub32 (u32 (proposalHeaderSz + vsize)) proposalHeaderSz = vsize := by
  have hu : u32 (proposalHeaderSz + vsize) = proposalHeaderSz + vsize := Nat.mod_eq_of_lt h
  refine ⟨hu, ?_⟩
  rw [hu]
  unfold sub32 u32
  unfold proposalHeaderSz at h ⊢
  omega

section

variable {m : EntryMng} {e : Int} {st : PaxosState} {src : Proposal}

/-- The value is copied along with its header. -/
theorem prepareRsp_whole (h : src.Sized) :
    AnswersWell .prepareReq (prepareRsp m e src.size src st) ↔ src.size < 2 ^ 31 := by
  obtain ⟨hu, hv⟩ := sub32_allocated h.word
  have hsize : (prepareRsp m e src.size src st).size = u32 (proposalHeaderSz + src.size) := rfl
  have hbytes : (prepareRsp m e src.size src st).pp.bytes = proposalHeaderSz + src.size := by
    change proposalHeaderSz + (src.data.take src.size).length = _
    rw [List.length_take, Nat.min_eq_left h.held]
  rw [← prepareCopySz_le_iff h.word]
  constructor
  · intro hw
    have hc := hw.copied rfl
    rwa [hsize, hv, hbytes] at hc
  · intro hle
    refine ⟨fun _ => by rwa [hsize, hv, hbytes], hu, ?_, ?_⟩
    · rw [hsize, hu]
      exact h.word
    · rw [hsize, hu, hbytes]

theorem prepareRsp_header : AnswersWell .prepareReq (prepareRsp m e 0 src st) ↔ src.size = 0 := by
  have hsize : (prepareRsp m e 0 src st).size = proposalHeaderSz := rfl
  constructor
  · intro hw
    have hs := hw.wellFormed.size
    rw [hsize, prepareRsp_size] at hs
    omega
  · intro h0
    refine ⟨fun _ => ?_, ?_⟩
    · have hbytes : (prepareRsp m e 0 src st).pp.bytes = proposalHeaderSz + 0 := by
        change proposalHeaderSz + (src.data.take 0).length = _
        rw [List.take_zero, List.length_nil]
      have hcopy : sub32 (prepareRsp m e 0 src st).size proposalHeaderSz = 0 := by
        rw [hsize]
        decide
      rw [hbytes, hcopy]
      exact (prepareCopySz_le_iff (by decide)).mpr (by decide)
    · refine Proposal.Sized.wellFormed (sized_empty h0) ?_
      rw [hsize, prepareRsp_size, h0, Nat.add_zero]

end

/-- An answer without a value, its two sizes set by hand. -/
theorem answersWell_empty {t : PaxosMsgType} {rsp : PaxosMsg} (ht : t ≠ .prepareReq)
    (hs : rsp.size = proposalHeaderSz) (hp : rsp.pp.size = 0) : AnswersWell t rsp :=
  ⟨fun h => absurd h ht, (sized_empty hp).wellFormed (by rw [hs, hp, Nat.add_zero])⟩

section

variable {m : EntryMng} {saves : Saves} {pp : Proposal} {h : Handled}

theorem not_turnedDown_of_vote {a : Proposal} (hb : ¬ Behind m pp)
    (ha : (m.opened pp.pentry).accepted = some a) :
    ¬ TurnedDown m saves pp ∧ bestKnown m pp = a := by
  refine ⟨?_, by unfold bestKnown; rw [ha]⟩
  rintro (h | ⟨hno, -⟩)
  · exact hb h
  · rw [ha] at hno
    cases hno

/-- The request is promised, or read: nothing of the entry is above it. -/
theorem bestKnown_own (ha : (m.opened pp.pentry).accepted = none)
    (hp : ∀ pr, (m.opened pp.pentry).promised = some pr → pr.pid < pp.pid) : bestKnown m pp = pp := by
  unfold bestKnown
  rw [ha]
  cases hpr : (m.opened pp.pentry).promised with
  | none => rfl
  | some pr => exact if_neg (Nat.not_le.mpr (hp pr hpr))

theorem PrepareDone.answersWell_iff (hd : PrepareDone m saves pp h) (hpp : pp.Sized)
    (hm : ProposalsSized m) : AnswersWell .prepareReq h.rsp ↔ PrepareFits m saves pp := by
  have hfits : ∀ src, ¬ TurnedDown m saves pp ∧ bestKnown m pp = src →
      (src.size < 2 ^ 31 ↔ PrepareFits m saves pp) := by
    rintro src ⟨hno, rfl⟩
    exact ⟨fun hlt => ⟨fun hd => absurd hd hno, fun _ => hlt⟩, fun hf => hf.short hno⟩
  have hdown : TurnedDown m saves pp → (pp.size = 0 ↔ PrepareFits m saves pp) :=
    fun hd => ⟨fun h0 => ⟨fun _ => h0, fun hno => absurd hd hno⟩, fun hf => hf.empty hd⟩
  cases hd with
  | behind hb hm' hr =>
    rw [hr, prepareRsp_header]
    exact hdown (.inl hb)
  | voted a hb ha hm' hr =>
    have hsz := hm _ _ (.inl (heldAccepted_opened ha))
    rw [hr, prepareRsp_whole hsz]
    exact hfits a (not_turnedDown_of_vote hb ha)
  | kept pr hb ha hp hle hm' hr =>
    have hsz := hm _ _ (.inr (heldPromised_opened hp))
    rw [hr, prepareRsp_whole hsz]
    refine hfits pr ⟨?_, ?_⟩
    · rintro (hb' | ⟨-, hlt, -⟩)
      · exact hb hb'
      · exact Nat.not_lt.mpr hle (hlt pr hp)
    · unfold bestKnown
      rw [ha, hp]
      exact if_pos hle
  | probed hb ha hp h0 hm' hr =>
    rw [hr, prepareRsp_whole hpp]
    refine hfits pp ⟨?_, bestKnown_own ha (fun pr hpr => by rw [hp] at hpr; cases hpr)⟩
    rintro (hb' | ⟨-, -, hpos, -⟩)
    · exact hb hb'
    · omega
  | promised hb ha hp hpos hs hm' hr =>
    rw [hr, prepareRsp_whole hpp]
    refine hfits pp ⟨?_, bestKnown_own ha hp⟩
    rintro (hb' | ⟨-, -, -, hs'⟩)
    · exact hb hb'
    · rw [hs] at hs'
      cases hs'
  | failed hb ha hp hpos hs hm' hr =>
    rw [hr, prepareRsp_header]
    exact hdown (.inr ⟨ha, hp, hpos, hs⟩)

end

/-- ACCEPT and CHOSEN are answered without a value, and say so. -/
theorem Served.answersWell_iff {m : EntryMng} {saves : Saves} {pp : Proposal} {t : PaxosMsgType}
    {h : Handled} (hs : Served m saves pp t h) (hpp : pp.Sized) (hm : ProposalsSized m) :
    AnswersWell t h.rsp ↔ (t = .prepareReq → PrepareFits m saves pp) := by
  have hother : ∀ {t : PaxosMsgType}, t ≠ .prepareReq → h.rsp.size = proposalHeaderSz →
      h.rsp.pp.size = 0 → (AnswersWell t h.rsp ↔ (t = .prepareReq → PrepareFits m saves pp)) :=
    fun ht hs hp => iff_of_true (answersWell_empty ht hs hp) fun h => absurd h ht
  cases hs with
  | prepare hd =>
    rw [hd.answersWell_iff hpp hm]
    exact ⟨fun hf _ => hf, fun hf => hf rfl⟩
  | accept hd => cases hd <;> rename_i hr <;> refine hother (by decide) ?_ ?_ <;> rw [hr] <;> rfl
  | chosen hd => cases hd <;> rename_i hr <;> refine hother (by decide) ?_ ?_ <;> rw [hr] <;> rfl

/-! ## The broadcasts of a proposer -/

/-- The messages an instance keeps are well formed. -/
structure KeepsSized (s : InstanceState) : Prop where
  req : ∀ q, s.req = some q → q.WellFormed
  lastv : ∀ l, s.lastv = some l → l.WellFormed

/-- What a step leaves behind and what it broadcasts. -/
structure SizesKept (s : InstanceState) (outs : List Out) : Prop where
  keeps : KeepsSized s
  sends : ∀ b ∈ broadcasts outs, b.WellFormed

section

variable {cfg : Configure} {s s' s₁ : InstanceState} {q rsp : PaxosMsg} {outs : List Out}

theorem merge_wellFormed (h : q.WellFormed) : (merge q rsp).WellFormed := h.same rfl rfl rfl

theorem asAcceptReq_wellFormed (h : q.WellFormed) : (asAcceptReq cfg s q).WellFormed :=
  h.same rfl rfl rfl

theorem sub32_value (h : q.WellFormed) : sub32 q.size q.pp.size = proposalHeaderSz := by
  have hs := h.size
  have hw := h.word
  unfold sub32 u32
  unfold proposalHeaderSz at hs ⊢
  omega

theorem asChosenReq_wellFormed (h : rsp.WellFormed) : (asChosenReq cfg rsp).WellFormed :=
  Proposal.Sized.wellFormed (sized_empty rfl) (sub32_value h)

theorem asPrepareReq_wellFormed (h : q.WellFormed) : (asPrepareReq q).WellFormed :=
  Proposal.Sized.wellFormed (sized_empty rfl) (sub32_value h)

theorem proposalMsg_wellFormed (i opaqueData : Nat) {val : List UInt8}
    (h : proposalHeaderSz + val.length < 2 ^ 32) :
    (s.proposalMsg cfg i opaqueData val).WellFormed := by
  have hval : u32 val.length = val.length := Nat.mod_eq_of_lt (by omega)
  have hsize : (s.proposalMsg cfg i opaqueData val).pp.size = u32 val.length := rfl
  refine Proposal.Sized.wellFormed ⟨?_, ?_⟩ ?_
  · rw [hsize, hval]
    exact Nat.le_refl _
  · rw [hsize, hval]
    exact h
  · rw [hsize, hval]
    change u32 (proposalHeaderSz + u32 val.length) = _
    rw [hval]
    exact Nat.mod_eq_of_lt h

theorem KeepsSized.end (h : KeepsSized s) : KeepsSized { s with req := none } :=
  ⟨fun q hq => (by cases hq), h.lastv⟩

theorem KeepsSized.prepareOut (h : KeepsSized s₁) {ret : Int} {done first : Bool}
    (ho : (s', outs) = s₁.prepareOut ret done first) : SizesKept s' outs := by
  refine ⟨prepareOut_keeps ho h h.end, fun b hb => ?_⟩
  rw [prepareOut_broadcasts ho] at hb
  cases hb

theorem KeepsSized.acceptOut (h : KeepsSized s₁) {ret : Int} {done : Bool}
    (ho : (s', outs) = s₁.acceptOut ret done) : SizesKept s' outs := by
  refine ⟨acceptOut_keeps ho h h.end, fun b hb => ?_⟩
  rw [acceptOut_broadcasts ho] at hb
  cases hb

theorem KeepsSized.quiet (h : KeepsSized s) (ho : broadcasts outs = []) : SizesKept s outs := by
  refine ⟨h, fun b hb => ?_⟩
  rw [ho] at hb
  cases hb

/-- The request takes at most the peer's metadata. -/
theorem KeepsSized.answered (h : KeepsSized s) (hq : s.req = some q)
    (hreq : s'.req = some q ∨ s'.req = some (merge q rsp)) (hlastv : s'.lastv = s.lastv) :
    KeepsSized s' := by
  refine ⟨fun q' hq' => ?_, fun l hl => h.lastv l (hlastv ▸ hl)⟩
  rcases hreq with hreq | hreq
  · rw [hreq] at hq'
    obtain rfl := Option.some.inj hq'
    exact h.req _ hq
  · rw [hreq] at hq'
    obtain rfl := Option.some.inj hq'
    exact merge_wellFormed (h.req q hq)

theorem KeepsSized.promise (h : KeepsSized s) (hq : s.req = some q) (hr : rsp.WellFormed) :
    KeepsSized (s.afterPromise q rsp) := by
  refine ⟨fun q' hq' => ?_, fun l hl => ?_⟩
  · rw [afterPromise_req] at hq'
    obtain rfl := Option.some.inj hq'
    exact merge_wellFormed (h.req q hq)
  · rw [afterPromise_lastv] at hl
    unfold takeLastVote at hl
    split at hl
    · split at hl
      · obtain rfl := Option.some.inj hl
        exact hr.clone
      · exact h.lastv l hl
    · exact h.lastv l hl

theorem KeepsSized.acceptSource (h : KeepsSized s) (hq : s.req = some q) (hr : rsp.WellFormed)
    {m : PaxosMsg} (hm : s.acceptSource q rsp = some m) : m.WellFormed := by
  unfold InstanceState.acceptSource at hm
  split at hm
  · exact (h.promise hq hr).lastv m hm
  · obtain rfl := Option.some.inj hm
    exact merge_wellFormed (h.req q hq)

theorem mem_broadcasts_rpc {m b : PaxosMsg} (h : b ∈ broadcasts (.rpc m :: outs)) :
    b = m ∨ b ∈ broadcasts outs := List.mem_cons.mp h

theorem handlePrepareRsp_sizes (h : KeepsSized s) (hr : rsp.WellFormed)
    (hs : s.handlePrepareRsp cfg rsp = some (s', outs)) : SizesKept s' outs := by
  cases hq : s.req with
  | none =>
    unfold handlePrepareRsp at hs
    rw [hq] at hs
    obtain ⟨rfl, rfl⟩ := Prod.mk.inj (Option.some.inj hs)
    exact h.quiet rfl
  | some q =>
    cases handlePrepareRsp_done hq hs with
    | wrongType ht => exact h.quiet rfl
    | refused ret req' ig ht hv hret hreq hig ho =>
      refine KeepsSized.prepareOut ?_ ho
      exact h.answered hq (hreq.imp (congrArg some) (congrArg some)) rfl
    | pending hv hsz hno ho => exact (h.promise hq hr).prepareOut ho
    | probed hv hsz hmaj hlast h0 ho => exact (h.promise hq hr).prepareOut ho
    | accepting m hv hsz hmaj hlast hpos hm hs' ho =>
      have hw : (asAcceptReq cfg s m).WellFormed :=
        asAcceptReq_wellFormed (h.acceptSource hq hr hm)
      refine ⟨?_, fun b hb => ?_⟩
      · rw [hs']
        refine ⟨fun q' hq' => ?_, fun l hl => by cases hl⟩
        unfold enterAccept at hq'
        dsimp only at hq'
        split at hq'
        · obtain rfl := Option.some.inj hq'
          exact merge_wellFormed (h.req q hq)
        · obtain rfl := Option.some.inj hq'
          exact hw
      · rw [ho] at hb
        rcases mem_broadcasts_rpc hb with rfl | hb
        · exact hw
        · split at hb <;> cases hb

theorem handleAcceptRsp_sizes (h : KeepsSized s) (hr : rsp.WellFormed)
    (hs : s.handleAcceptRsp cfg rsp = (s', outs)) : SizesKept s' outs := by
  cases hq : s.req with
  | none =>
    unfold handleAcceptRsp at hs
    rw [hq] at hs
    obtain ⟨rfl, rfl⟩ := Prod.mk.inj hs
    exact h.quiet rfl
  | some q =>
    cases handleAcceptRsp_done hq hs with
    | wrongType ht => exact h.quiet rfl
    | refused ret req' ig ht hv hret hreq hig ho =>
      refine KeepsSized.acceptOut ?_ ho
      exact h.answered hq (hreq.imp (congrArg some) (congrArg some)) rfl
    | pending hv hno ho =>
      refine KeepsSized.acceptOut ?_ ho
      exact h.answered hq (.inr rfl) rfl
    | chosen hv hmaj hs' ho =>
      have hlastv := (updateChosenInfo_keeps (s.afterAccept q rsp) rsp.pp.pentry rsp.pp.proposer).lastv
      refine ⟨?_, fun b hb => ?_⟩
      · rw [hs']
        refine ⟨fun q' hq' => ?_, fun l hl => h.lastv l (hlastv.symm.trans hl)⟩
        cases hq'
      · rw [ho] at hb
        rcases mem_broadcasts_rpc hb with rfl | hb
        · exact asChosenReq_wellFormed hr
        · split at hb <;> cases hb

theorem proposeAsync_sizes (h : KeepsSized s) (i opaqueData : Nat) {val : List UInt8}
    (hval : proposalHeaderSz + val.length < 2 ^ 32) (promise : Nat) (oom : Bool) :
    SizesKept (s.proposeAsync cfg i opaqueData val promise oom).1
      (s.proposeAsync cfg i opaqueData val promise oom).2 := by
  have hm : (s.proposalMsg cfg i opaqueData val).WellFormed :=
    proposalMsg_wellFormed i opaqueData hval
  have hd := proposeAsync_done cfg s i opaqueData val promise oom
  generalize (s.proposeAsync cfg i opaqueData val promise oom).1 = s' at hd ⊢
  generalize (s.proposeAsync cfg i opaqueData val promise oom).2 = outs at hd ⊢
  have hbegun : ∀ {st : UInt8} {m : PaxosMsg}, m.WellFormed →
      KeepsSized (s.begun cfg i opaqueData val promise st m) := by
    intro st m hm
    refine ⟨fun q hq => ?_, h.lastv⟩
    obtain rfl := Option.some.inj hq
    exact hm
  cases hd with
  | rejected code hc => exact h.quiet rfl
  | prepare m hidle hm' hskip =>
    subst hm'
    refine ⟨hbegun hm, fun b hb => ?_⟩
    rcases mem_broadcasts_rpc hb with rfl | hb
    · exact asPrepareReq_wellFormed hm
    · cases hb
  | fast m hidle hm' hv hskip =>
    subst hm'
    refine ⟨hbegun (asAcceptReq_wellFormed hm), fun b hb => ?_⟩
    rcases mem_broadcasts_rpc hb with rfl | hb
    · exact asAcceptReq_wellFormed hm
    · cases hb

end

/-- Every instance keeps well-formed messages. -/
def AllSized (p : Proposer) : Prop := ∀ i, KeepsSized (p i)

theorem AllSized.update {p : Proposer} (h : AllSized p) {i : Nat} {s : InstanceState}
    (hs : KeepsSized s) : AllSized (Function.update p i s) := by
  intro j
  rw [Function.update_apply]
  split
  · exact hs
  · exact h j

theorem handleRpcResponse_sizes {cfg : Configure} {p p' : Proposer} {m : RpcResponseMsg}
    {outs : List Out} (h : AllSized p) (hm : ∀ rsp, m.msg = some rsp → rsp.WellFormed)
    (hs : p.handleRpcResponse cfg m = some (p', outs)) :
    AllSized p' ∧ ∀ b ∈ broadcasts outs, b.WellFormed := by
  have hnone : ∀ b ∈ broadcasts [], b.WellFormed := fun b hb => by cases hb
  cases Proposer.handleRpcResponse_done hs with
  | late | phaseless => exact ⟨h, hnone⟩
  | timeout =>
    refine ⟨h.update ⟨fun q hq => ?_, fun l hl => ?_⟩, fun b hb => ?_⟩
    · cases hq
    · cases hl
    · rw [(handleTimeout_kept _).2] at hb
      cases hb
  | prepare rsp haw hrsp hph hs =>
    have hk := handlePrepareRsp_sizes (h rsp.pp.pinst) (hm rsp hrsp) hs
    exact ⟨h.update hk.keeps, hk.sends⟩
  | accept rsp haw hrsp hph hs =>
    have hk := handleAcceptRsp_sizes (h rsp.pp.pinst) (hm rsp hrsp) hs
    exact ⟨h.update hk.keeps, hk.sends⟩

/-- The responses are well formed, and the values of the calls fit into a message. -/
def SendsSized (_ : ProposerRun) (op : ProposerOp) (_ : ProposerRun) : Prop :=
  match op with
  | .propose _ val _ _ => proposalHeaderSz + val.length < 2 ^ 32
  | .response m => ∀ rsp, m.msg = some rsp → rsp.WellFormed
  | .entryChosen _ _ => True

theorem step_sizes {cfg : Configure} {r r' : ProposerRun} {op : ProposerOp} (h : AllSized r.states)
    (hs : r.step cfg op = some r') (hok : SendsSized r op r') : AllSized r'.states := by
  cases op with
  | propose opaqueData val pinst oom =>
    obtain rfl := Option.some.inj hs
    exact h.update (proposeAsync_sizes (h _) _ _ hok _ _).keeps
  | response m =>
    obtain ⟨res, hres, rfl⟩ := Option.map_eq_some_iff.mp hs
    exact (handleRpcResponse_sizes h hok hres).1
  | entryChosen msg fromPlog =>
    obtain rfl := Option.some.inj hs
    refine h.update ?_
    unfold onEntryChosen
    split
    · exact h _
    · have hkeeps := updateChosenInfo_keeps (r.states (msg.pp.pinst % cfg.plogInstNum)) msg.pp.pentry
        msg.pp.proposer
      refine ⟨fun q hq => ?_, fun l hl => ?_⟩
      · exact (h _).req q (hkeeps.req.symm.trans hq)
      · exact (h _).lastv l (hkeeps.lastv.symm.trans hl)

theorem allSized_reachable {cfg : Configure} {r : ProposerRun}
    (h : ((proposerSys cfg).restrict SendsSized).Reachable r) : AllSized r.states := by
  refine LTS.Inductive.reachable (I := fun r => AllSized r.states) ⟨?_, ?_⟩ r h
  · rintro r ⟨sec, rfl⟩ i
    refine ⟨fun q hq => ?_, fun l hl => ?_⟩
    · cases hq
    · cases hl
  · intro r op r' hI hs
    exact step_sizes hI hs.1 hs.2

/-! ## Both sides -/

/-- The requests of a round. -/
def PaxosMsgType.IsRequest (t : PaxosMsgType) : Prop := t = .prepareReq ∨ t = .acceptReq ∨ t = .chosenReq

/-- In every reachable state of an acceptor a well-formed request is answered well exactly if it is
no PREPARE or one that fits. In every reachable state of a proposer whose values fit, the broadcasts
of a call and those of a well-formed response are well formed. -/
theorem sizes_kept (cfg : Configure) :
    (∀ a, ((acceptorSys cfg).restrict ReceivesSized).Reachable a → ∀ saves (msg : PaxosMsg),
      msg.type.IsRequest → msg.WellFormed →
      ∃ rsp, (a.doHandleMsg cfg saves msg).1 = some rsp ∧ (AnswersWell msg.type rsp ↔
        (msg.type = .prepareReq → PrepareFits (a.mngs (cfg.mngOf msg.pp.pinst)) saves msg.pp))) ∧
    ∀ r, ((proposerSys cfg).restrict SendsSized).Reachable r →
      (∀ opaqueData val pinst promise oom, proposalHeaderSz + val.length < 2 ^ 32 →
        ∀ b ∈ broadcasts (r.states.proposeAsync cfg opaqueData val pinst promise oom).2, b.WellFormed) ∧
      ∀ m p' outs, (∀ rsp, m.msg = some rsp → rsp.WellFormed) →
        r.states.handleRpcResponse cfg m = some (p', outs) → ∀ b ∈ broadcasts outs, b.WellFormed := by
  refine ⟨fun a ha saves msg ht hmsg => ?_, fun r hr => ⟨?_, ?_⟩⟩
  · have hpos := (proposalsSized_reachable ha (cfg.mngOf msg.pp.pinst)).1
    have hm := (proposalsSized_reachable ha (cfg.mngOf msg.pp.pinst)).2
    rcases doHandleMsg_cases cfg a saves msg hpos with ⟨-, hno⟩ | ⟨h, rt, hs, -, hrsp⟩
    · rcases ht with ht | ht | ht <;> rw [ht] at hno <;> cases hno
    · refine ⟨_, hrsp, ?_⟩
      rw [← hs.answersWell_iff hmsg.sized hm]
      exact answersWell_congr rfl rfl
  · intro opaqueData val pinst promise oom hval
    exact (proposeAsync_sizes (allSized_reachable hr _) _ _ hval _ _).sends
  · intro m p' outs hm hs
    exact (handleRpcResponse_sizes (allSized_reachable hr) hm hs).2

/-- A proposer and the only acceptor. -/
def aloneCfg : Configure :=
  { Configure.init 0 with totalAcceptor := 1, acceptor_pos := Nat.one_pos, acceptor_le := by decide }

/-- The first call. -/
def calledOnce : ProposerRun :=
  let res := (Proposer.new aloneCfg 7).proposeAsync aloneCfg 1 [9] 0 1 false
  ⟨res.1, Function.update (fun _ => ⟨0, []⟩) 0 ⟨1, [] ++ promisesSet res.2⟩⟩

/-- The promise of the only acceptor. -/
def onlyPromise : PaxosMsg :=
  let m := (InstanceState.new 0 3 7).proposalMsg aloneCfg 0 1 [9]
  { m with type := .prepareRsp, pp := { m.pp with status := .promised } }

theorem calledOnce_reachable : ((proposerSys aloneCfg).restrict SendsSized).Reachable calledOnce := by
  refine LTS.Reachable.step (.of_init ⟨7, rfl⟩) (l := .propose 1 [9] 0 false) ⟨rfl, ?_⟩
  change proposalHeaderSz + 1 < 2 ^ 32
  decide

/-- A PREPARE with a value that is promised, and the ACCEPT that follows a promise. -/
theorem sizes_kept_first :
    (∃ rsp, ((Acceptor.new aloneCfg fun _ _ => none).doHandleMsg aloneCfg Saves.good
        (requestOf .prepareReq 1 7 1 [1])).1 = some rsp ∧ AnswersWell .prepareReq rsp) ∧
      ∃ p' outs, calledOnce.states.handleRpcResponse aloneCfg ⟨0, 0, 1, some onlyPromise⟩ =
        some (p', outs) ∧ broadcasts outs ≠ [] ∧ ∀ b ∈ broadcasts outs, b.WellFormed := by
  refine ⟨?_, ?_⟩
  · obtain ⟨rsp, hrsp, hiff⟩ := (sizes_kept aloneCfg).1 _ (.of_init rfl) Saves.good
      (requestOf .prepareReq 1 7 1 [1]) (.inl rfl) ⟨by decide, by decide, by decide⟩
    refine ⟨rsp, hrsp, hiff.mpr fun _ => ⟨?_, fun _ => ?_⟩⟩
    · rintro (hb | ⟨-, -, -, hs⟩)
      · exact absurd hb.1 (by decide)
      · cases hs
    · decide +kernel
  · refine ⟨_, _, rfl, by decide +kernel, ?_⟩
    refine ((sizes_kept aloneCfg).2 _ calledOnce_reachable).2 ⟨0, 0, 1, some onlyPromise⟩ _ _ ?_ rfl
    intro rsp hrsp
    obtain rfl := Option.some.inj hrsp
    exact ⟨by decide +kernel, by decide +kernel, by decide +kernel⟩

/-- The promise of a PREPARE with one byte of value is not saved: one byte is announced and none is
there. -/
theorem not_sizes_kept :
    ¬ ∀ (cfg : Configure) (a : Acceptor) (saves : Saves) (msg rsp : PaxosMsg),
      ((acceptorSys cfg).restrict ReceivesSized).Reachable a → msg.type.IsRequest → msg.WellFormed →
      (a.doHandleMsg cfg saves msg).1 = some rsp → rsp.WellFormed := by
  intro h
  have hw := h (Configure.init 0) _ ⟨false, true⟩ (requestOf .prepareReq 1 7 1 [1]) _ (.of_init rfl)
    (.inl rfl) ⟨by decide, by decide, by decide⟩ rfl
  have hsize : (68 : Nat) = 68 + 1 := hw.size
  cases hsize

end Quarrel
