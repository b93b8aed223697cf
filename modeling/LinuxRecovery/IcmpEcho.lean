import Mathlib

namespace LinuxRecovery.IcmpEcho

abbrev Bytes : Type := List UInt8

def icmpMaxRetry : ℕ := 20

def icmpDataDefLen : ℕ := 56

def icmpMaxLen : ℕ := 76

def ipMaxLen : ℕ := 60

def icmpMinlen : ℕ := 8

def icmpEchoreply : ℕ := 0

def packetSize : ℕ := icmpMinlen + icmpDataDefLen

def recvPacketSize : ℕ := icmpDataDefLen + icmpMaxLen + ipMaxLen

inductive Round where
  | interrupted
  | pollFailed
  | polled (packet : Option Bytes)
  deriving DecidableEq

def byteAt (b : Bytes) (i : ℕ) : ℕ := (b.getD i 0).toNat

def headerLength (b : Bytes) : ℕ := byteAt b 0 % 16 * 4

def icmpType (b : Bytes) : ℕ := byteAt b (headerLength b)

def icmpId (b : Bytes) : ℕ := byteAt b (headerLength b + 4) + 256 * byteAt b (headerLength b + 5)

/-- What a packet leaves in `recv_packet`: behind its end the bytes of earlier ones stay. -/
def fill (buffer packet : Bytes) : Bytes :=
  packet.take recvPacketSize ++ buffer.drop (packet.take recvPacketSize).length

def passes (pid : ℕ) (buffer : Bytes) : Bool := icmpId buffer == pid || icmpType buffer == icmpEchoreply

def resend (sent : ℕ → ℤ) (tryCount : ℕ) : Option ℕ :=
  if tryCount < icmpMaxRetry ∧ sent tryCount = packetSize then some (tryCount + 1) else none

structure Reply where
  result : Option ℤ
  packets : List Bytes
  deriving DecidableEq

def waitReply (pid : ℕ) (sent : ℕ → ℤ) : Bytes → ℕ → List Round → Reply
  | _, _, [] => ⟨none, []⟩
  | buffer, tryCount, .interrupted :: rounds => waitReply pid sent buffer tryCount rounds
  | buffer, tryCount, .pollFailed :: rounds =>
    match resend sent tryCount with
    | none => ⟨some (-1), []⟩
    | some tryCount => waitReply pid sent buffer tryCount rounds
  | buffer, tryCount, .polled none :: rounds =>
    match resend sent tryCount with
    | none => ⟨some (-1), []⟩
    | some tryCount => waitReply pid sent buffer tryCount rounds
  | buffer, tryCount, .polled (some packet) :: rounds =>
    let buffer := fill buffer packet
    let reply :=
      if packet.length < icmpDataDefLen then
        match resend sent tryCount with
        | none => ⟨some (-1), []⟩
        | some tryCount => waitReply pid sent buffer tryCount rounds
      else if passes pid buffer then ⟨some 0, []⟩
      else waitReply pid sent buffer tryCount rounds
    { reply with packets := packet :: reply.packets }

def identifier (processId : ℕ) : ℕ := processId % 2 ^ 16

/-- `sent` is what `sendto` returns for each try, `buffer` what `recv_packet` holds before the call. -/
def icmpEcho (processId : ℕ) (sent : ℕ → ℤ) (buffer : Bytes) (rounds : List Round) : Reply :=
  match resend sent 0 with
  | none => ⟨some (-1), []⟩
  | some tryCount => waitReply (identifier processId) sent buffer tryCount rounds

structure Answer (pid : ℕ) (packet : Bytes) : Prop where
  fits : headerLength packet + icmpMinlen ≤ packet.length
  reply : icmpType packet = icmpEchoreply
  identified : icmpId packet = pid

def standing (buffer packet : Bytes) (i : ℕ) : ℕ := if i < packet.length then byteAt packet i else byteAt buffer i

/-- A packet that is no answer, although one of the two fields has the value of one: the reply to another process,
a request or other message with this identifier, or a packet whose header leaves no room for the fields, so that
bytes behind it are taken for them. -/
inductive Decoy (pid : ℕ) (buffer packet : Bytes) : Prop where
  | foreign (fits : headerLength packet + icmpMinlen ≤ packet.length) (reply : icmpType packet = icmpEchoreply)
      (other : icmpId packet ≠ pid)
  | own (fits : headerLength packet + icmpMinlen ≤ packet.length) (identified : icmpId packet = pid)
      (other : icmpType packet ≠ icmpEchoreply)
  | stale (short : packet.length < headerLength packet + icmpMinlen)
      (read : standing buffer packet (headerLength packet + 4) +
          256 * standing buffer packet (headerLength packet + 5) = pid ∨
        standing buffer packet (headerLength packet) = icmpEchoreply)

def Answered (processId : ℕ) (sent : ℕ → ℤ) (buffer : Bytes) (rounds : List Round) : Prop :=
  (icmpEcho processId sent buffer rounds).result = some 0 →
    ∃ packet ∈ (icmpEcho processId sent buffer rounds).packets, Answer (identifier processId) packet

def Round.packet : Round → Option Bytes
  | .polled packet => packet
  | _ => none

def Round.store (buffer : Bytes) (r : Round) : Bytes := r.packet.elim buffer (fill buffer)

def Round.breaks : Round → Bool
  | .interrupted => false
  | .pollFailed => true
  | .polled none => true
  | .polled (some packet) => packet.length < icmpDataDefLen

/-- The tries are not used up by the rounds, and each of them could send its request. -/
structure Lasts (sent : ℕ → ℤ) (rounds : List Round) : Prop where
  tries : rounds.countP Round.breaks < icmpMaxRetry
  sends : ∀ k ≤ rounds.countP Round.breaks, sent k = packetSize

def Round.taken (pid : ℕ) (buffer : Bytes) (r : Round) : Bool :=
  !r.breaks && r.packet.any (fun packet => passes pid (fill buffer packet))

def Quiet (pid : ℕ) : Bytes → List Round → Prop
  | _, [] => True
  | buffer, r :: rounds => r.taken pid buffer = false ∧ Quiet pid (r.store buffer) rounds

structure Taken (pid : ℕ) (sent : ℕ → ℤ) (buffer : Bytes) (tryCount : ℕ) (before : List Round) (packet : Bytes) :
    Prop where
  tries : ∀ k < before.countP Round.breaks, (resend sent (tryCount + k)).isSome = true
  quiet : Quiet pid buffer before
  long : icmpDataDefLen ≤ packet.length
  passed : passes pid (fill (before.foldl Round.store buffer) packet) = true

section Wait

variable {pid : ℕ} {sent : ℕ → ℤ} {buffer : Bytes} {tryCount : ℕ} {packet : Bytes} {rounds : List Round}

theorem waitReply_taken (sent : ℕ → ℤ) (tryCount : ℕ) (rounds : List Round) (r : Round) (h : r.taken pid buffer = true) :
    ∃ packet, r = .polled (some packet) ∧ icmpDataDefLen ≤ packet.length ∧ passes pid (fill buffer packet) = true ∧
      waitReply pid sent buffer tryCount (r :: rounds) = ⟨some 0, [packet]⟩ := by
  rw [Round.taken, Bool.and_eq_true, Bool.not_eq_true'] at h
  obtain ⟨hb, hp⟩ := h
  cases r with
  | interrupted => cases hp
  | pollFailed => cases hp
  | polled p =>
    cases p with
    | none => cases hp
    | some packet =>
      have hlong : ¬packet.length < icmpDataDefLen := by simpa [Round.breaks] using hb
      have hpass : passes pid (fill buffer packet) = true := hp
      refine ⟨packet, rfl, by omega, hpass, ?_⟩
      rw [waitReply, if_neg hlong, if_pos hpass]

theorem waitReply_passed (r : Round) (h : r.taken pid buffer = false) :
    waitReply pid sent buffer tryCount (r :: rounds) =
      if r.breaks then
        match resend sent tryCount with
        | none => ⟨some (-1), r.packet.toList⟩
        | some tryCount =>
          ⟨(waitReply pid sent (r.store buffer) tryCount rounds).result,
            r.packet.toList ++ (waitReply pid sent (r.store buffer) tryCount rounds).packets⟩
      else
        ⟨(waitReply pid sent (r.store buffer) tryCount rounds).result,
          r.packet.toList ++ (waitReply pid sent (r.store buffer) tryCount rounds).packets⟩ := by
  cases r with
  | interrupted => rfl
  | pollFailed =>
    rw [waitReply]
    cases resend sent tryCount <;> rfl
  | polled p =>
    cases p with
    | none =>
      rw [waitReply]
      cases resend sent tryCount <;> rfl
    | some packet =>
      rw [waitReply]
      by_cases hs : packet.length < icmpDataDefLen
      · rw [if_pos hs, if_pos (by simpa [Round.breaks] using hs)]
        cases resend sent tryCount <;> rfl
      · have hb : Round.breaks (.polled (some packet)) = false := by simpa [Round.breaks] using hs
        have hpass : ¬passes pid (fill buffer packet) = true := by
          simpa [Round.taken, hb, Round.packet] using h
        rw [if_neg hs, if_neg hpass, if_neg (by simp [hb])]
        rfl

theorem resend_some {next : ℕ} (h : resend sent tryCount = some next) : next = tryCount + 1 := by
  unfold resend at h
  split_ifs at h
  cases h
  rfl

theorem Taken.wait {before : List Round} (h : Taken pid sent buffer tryCount before packet) (after : List Round) :
    waitReply pid sent buffer tryCount (before ++ .polled (some packet) :: after) =
      ⟨some 0, before.filterMap Round.packet ++ [packet]⟩ := by
  induction before generalizing buffer tryCount with
  | nil =>
    have htaken : Round.taken pid buffer (.polled (some packet)) = true := by
      have hlong := h.long
      have hpassed := h.passed
      simp only [List.foldl_nil] at hpassed
      simp [Round.taken, Round.breaks, Round.packet, hlong, hpassed]
    obtain ⟨p, hp, -, -, hwait⟩ := waitReply_taken sent tryCount after (.polled (some packet)) htaken
    cases hp
    exact hwait
  | cons r before ih =>
    have hcons : ∀ next, (∀ k < before.countP Round.breaks, (resend sent (next + k)).isSome = true) →
        waitReply pid sent (r.store buffer) next (before ++ .polled (some packet) :: after) =
          ⟨some 0, before.filterMap Round.packet ++ [packet]⟩ :=
      fun next htries => ih ⟨htries, h.quiet.2, h.long, h.passed⟩
    have hpackets : r.packet.toList ++ (before.filterMap Round.packet ++ [packet]) =
        (r :: before).filterMap Round.packet ++ [packet] := by
      rw [List.filterMap_cons]
      cases r.packet <;> rfl
    have htries := h.tries
    rw [List.cons_append, waitReply_passed r h.quiet.1]
    cases hb : r.breaks with
    | false =>
      rw [if_neg (by simp), hcons tryCount (fun k hk => htries k (by simpa [List.countP_cons, hb] using hk)), hpackets]
    | true =>
      have hcount : (r :: before).countP Round.breaks = before.countP Round.breaks + 1 := by
        rw [List.countP_cons, if_pos hb]
      obtain ⟨next, hnext⟩ := Option.isSome_iff_exists.mp (htries 0 (by omega))
      rw [Nat.add_zero] at hnext
      obtain rfl := resend_some hnext
      have hlater : ∀ k < before.countP Round.breaks, (resend sent (tryCount + 1 + k)).isSome = true := by
        intro k hk
        have := htries (k + 1) (by omega)
        rwa [show tryCount + (k + 1) = tryCount + 1 + k by omega] at this
      rw [if_pos rfl, hnext]
      dsimp only
      rw [hcons (tryCount + 1) hlater, hpackets]

theorem wait_zero (h : (waitReply pid sent buffer tryCount rounds).result = some 0) :
    ∃ before packet after, rounds = before ++ .polled (some packet) :: after ∧
      Taken pid sent buffer tryCount before packet := by
  induction rounds generalizing buffer tryCount with
  | nil => cases h
  | cons r rounds ih =>
    cases ht : r.taken pid buffer with
    | true =>
      obtain ⟨packet, rfl, hlong, hpass, -⟩ :=
        waitReply_taken sent tryCount rounds r ht
      exact ⟨[], packet, rounds, rfl, ⟨fun k hk => absurd hk (Nat.not_lt_zero k), trivial, hlong, hpass⟩⟩
    | false =>
      rw [waitReply_passed r ht] at h
      cases hb : r.breaks with
      | false =>
        rw [hb, if_neg (by simp)] at h
        obtain ⟨before, packet, after, rfl, htaken⟩ := ih h
        refine ⟨r :: before, packet, after, rfl, ⟨?_, ⟨ht, htaken.quiet⟩, htaken.long, htaken.passed⟩⟩
        intro k hk
        exact htaken.tries k (by simpa [List.countP_cons, hb] using hk)
      | true =>
        rw [hb, if_pos rfl] at h
        cases hnext : resend sent tryCount with
        | none =>
          rw [hnext] at h
          simp at h
        | some next =>
          obtain rfl := resend_some hnext
          rw [hnext] at h
          obtain ⟨before, packet, after, rfl, htaken⟩ := ih h
          refine ⟨r :: before, packet, after, rfl, ⟨?_, ⟨ht, htaken.quiet⟩, htaken.long, htaken.passed⟩⟩
          intro k hk
          rw [List.countP_cons, if_pos hb] at hk
          cases k with
          | zero => rw [Nat.add_zero, hnext]; rfl
          | succ k =>
            have := htaken.tries k (by omega)
            rwa [show tryCount + 1 + k = tryCount + (k + 1) by omega] at this

theorem headerLength_le (b : Bytes) : headerLength b ≤ 60 := by
  unfold headerLength
  omega

theorem byteAt_fill {i : ℕ} (hi : i < packet.length) (hr : i < recvPacketSize) (buffer : Bytes) :
    byteAt (fill buffer packet) i = byteAt packet i := by
  have htake : i < (packet.take recvPacketSize).length := by
    rw [List.length_take]
    omega
  unfold byteAt fill
  rw [List.getD_append _ _ _ _ htake, List.getD_eq_getElem?_getD, List.getElem?_take_of_lt hr,
    ← List.getD_eq_getElem?_getD]

theorem byteAt_standing (buffer : Bytes) {i : ℕ} (hr : i < recvPacketSize) :
    byteAt (fill buffer packet) i = standing buffer packet i := by
  unfold standing
  split_ifs with hi
  · exact byteAt_fill hi hr buffer
  · have htake : packet.take recvPacketSize = packet := List.take_of_length_le (by omega)
    unfold byteAt fill
    rw [htake, List.getD_append_right _ _ _ _ (by omega), List.getD_eq_getElem?_getD, List.getElem?_drop,
      ← List.getD_eq_getElem?_getD, Nat.add_sub_cancel' (by omega)]

theorem headerLength_fill (hp : 0 < packet.length) (buffer : Bytes) :
    headerLength (fill buffer packet) = headerLength packet := by
  rw [headerLength, byteAt_fill hp (by decide)]
  rfl

theorem passes_standing (hp : 0 < packet.length) (buffer : Bytes) :
    passes pid (fill buffer packet) = true ↔
      standing buffer packet (headerLength packet + 4) + 256 * standing buffer packet (headerLength packet + 5) = pid ∨
        standing buffer packet (headerLength packet) = icmpEchoreply := by
  have hle := headerLength_le packet
  have hroom : 66 ≤ recvPacketSize := by decide
  rw [passes, Bool.or_eq_true, beq_iff_eq, beq_iff_eq, icmpId, icmpType, headerLength_fill hp,
    byteAt_standing buffer (by omega), byteAt_standing buffer (by omega), byteAt_standing buffer (by omega)]

theorem passes_fits (hfits : headerLength packet + icmpMinlen ≤ packet.length) (buffer : Bytes) :
    passes pid (fill buffer packet) = true ↔ icmpId packet = pid ∨ icmpType packet = icmpEchoreply := by
  rw [icmpMinlen] at hfits
  rw [passes_standing (by omega), standing, standing, standing, if_pos (by omega), if_pos (by omega),
    if_pos (by omega)]
  rfl

theorem Decoy.passes (h : Decoy pid buffer packet) (hlong : icmpDataDefLen ≤ packet.length) :
    passes pid (fill buffer packet) = true := by
  have hpos : 0 < packet.length := lt_of_lt_of_le (by decide) hlong
  cases h with
  | foreign hfits hreply _ => exact (passes_fits hfits buffer).mpr (.inr hreply)
  | own hfits hid _ => exact (passes_fits hfits buffer).mpr (.inl hid)
  | stale _ hread => exact (passes_standing hpos buffer).mpr hread

theorem Decoy.not_answer (h : Decoy pid buffer packet) : ¬Answer pid packet := by
  rintro ⟨hfits, hreply, hid⟩
  cases h with
  | foreign _ _ hother => exact hother hid
  | own _ _ hother => exact hother hreply
  | stale hshort _ => omega

theorem answer_or_decoy (hlong : icmpDataDefLen ≤ packet.length) (h : passes pid (fill buffer packet) = true) :
    Answer pid packet ∨ Decoy pid buffer packet := by
  have hpos : 0 < packet.length := lt_of_lt_of_le (by decide) hlong
  by_cases hfits : headerLength packet + icmpMinlen ≤ packet.length
  · by_cases hid : icmpId packet = pid
    · by_cases hreply : icmpType packet = icmpEchoreply
      · exact .inl ⟨hfits, hreply, hid⟩
      · exact .inr (.own hfits hid hreply)
    · have hreply := ((passes_fits hfits buffer).mp h).resolve_left hid
      exact .inr (.foreign hfits hreply hid)
  · exact .inr (.stale (by omega) ((passes_standing hpos buffer).mp h))

theorem exists_quiet {before : List Round} (h : ¬Quiet pid buffer before) :
    ∃ earlier packet later, before = earlier ++ .polled (some packet) :: later ∧ Quiet pid buffer earlier ∧
      icmpDataDefLen ≤ packet.length ∧ passes pid (fill (earlier.foldl Round.store buffer) packet) = true := by
  induction before generalizing buffer with
  | nil => exact absurd trivial h
  | cons r before ih =>
    cases ht : r.taken pid buffer with
    | true =>
      obtain ⟨packet, rfl, hlong, hpass, -⟩ := waitReply_taken (fun _ => 0) 0 [] r ht
      exact ⟨[], packet, before, rfl, trivial, hlong, hpass⟩
    | false =>
      obtain ⟨earlier, packet, later, rfl, hquiet, hlong, hpass⟩ := ih (fun hq => h ⟨ht, hq⟩)
      exact ⟨r :: earlier, packet, later, rfl, ⟨ht, hquiet⟩, hlong, hpass⟩

theorem Lasts.resends {before : List Round} (h : Lasts sent before) :
    ∀ k < before.countP Round.breaks, (resend sent (1 + k)).isSome = true := by
  intro k hk
  have htries := h.tries
  rw [resend, if_pos ⟨by omega, h.sends (1 + k) (by omega)⟩]
  rfl

theorem Lasts.earlier {before after : List Round} (h : Lasts sent (before ++ after)) : Lasts sent before := by
  have htries := h.tries
  rw [List.countP_append] at htries
  refine ⟨by omega, fun k hk => h.sends k ?_⟩
  rw [List.countP_append]
  omega

theorem Taken.lasts {before : List Round} (h : Taken pid sent buffer 1 before packet) (h0 : sent 0 = packetSize) :
    Lasts sent before := by
  have hsome : ∀ k < before.countP Round.breaks, 1 + k < icmpMaxRetry ∧ sent (1 + k) = packetSize := by
    intro k hk
    have := h.tries k hk
    unfold resend at this
    split_ifs at this with hc
    · exact hc
    · cases this
  refine ⟨?_, fun k hk => ?_⟩
  · rcases Nat.eq_zero_or_pos (before.countP Round.breaks) with hz | hpos
    · rw [hz]
      decide
    · have := (hsome (before.countP Round.breaks - 1) (by omega)).1
      omega
  · cases k with
    | zero => exact h0
    | succ k =>
      rw [Nat.add_comm]
      exact (hsome k (by omega)).2

end Wait

/-- A success is an answer exactly when no decoy comes up before the answer while the tries last. -/
theorem answered_iff (processId : ℕ) (sent : ℕ → ℤ) (buffer : Bytes) (rounds : List Round) :
    Answered processId sent buffer rounds ↔
      ∀ before packet after, rounds = before ++ .polled (some packet) :: after → Lasts sent before →
        icmpDataDefLen ≤ packet.length →
        Decoy (identifier processId) (before.foldl Round.store buffer) packet →
          ∃ earlier ∈ before.filterMap Round.packet, Answer (identifier processId) earlier := by
  have hstart : sent 0 = packetSize → icmpEcho processId sent buffer rounds =
      waitReply (identifier processId) sent buffer 1 rounds := by
    intro h0
    have hresend : resend sent 0 = some 1 := by rw [resend, if_pos ⟨by decide, h0⟩]
    rw [icmpEcho, hresend]
  constructor
  · rintro h before packet after rfl hlasts hlong hdecoy
    rw [Answered, hstart (hlasts.sends 0 (Nat.zero_le _))] at h
    by_cases hquiet : Quiet (identifier processId) buffer before
    · -- the decoy itself ends the wait
      have htaken : Taken (identifier processId) sent buffer 1 before packet :=
        ⟨hlasts.resends, hquiet, hlong, hdecoy.passes hlong⟩
      rw [htaken.wait after] at h
      obtain ⟨p, hp, ha⟩ := h rfl
      rcases List.mem_append.mp hp with hp | hp
      · exact ⟨p, hp, ha⟩
      · rw [List.mem_singleton] at hp
        exact absurd (hp ▸ ha) hdecoy.not_answer
    · -- an earlier packet has ended it
      obtain ⟨earlier, q, later, rfl, hq, hqlong, hqpass⟩ := exists_quiet hquiet
      have htaken : Taken (identifier processId) sent buffer 1 earlier q := ⟨hlasts.earlier.resends, hq, hqlong, hqpass⟩
      rw [List.append_assoc, List.cons_append, htaken.wait] at h
      obtain ⟨p, hp, ha⟩ := h rfl
      refine ⟨p, ?_, ha⟩
      rw [List.filterMap_append, List.filterMap_cons]
      rcases List.mem_append.mp hp with hp | hp
      · exact List.mem_append_left _ hp
      · rw [List.mem_singleton] at hp
        exact List.mem_append_right _ (hp ▸ List.mem_cons_self)
  · intro h hzero
    have h0 : sent 0 = packetSize := by
      by_contra hne
      have hresend : resend sent 0 = none := by rw [resend, if_neg (fun hc => hne hc.2)]
      rw [icmpEcho, hresend] at hzero
      simp at hzero
    rw [hstart h0] at hzero ⊢
    obtain ⟨before, packet, after, rfl, htaken⟩ := wait_zero hzero
    rw [htaken.wait after]
    rcases answer_or_decoy htaken.long htaken.passed with ha | hdecoy
    · exact ⟨packet, by simp, ha⟩
    · obtain ⟨p, hp, ha⟩ := h before packet after rfl (htaken.lasts h0) htaken.long hdecoy
      exact ⟨p, List.mem_append_left _ hp, ha⟩

def foreignReply : Bytes := 0x45 :: List.replicate 83 0

def freshPacket : Bytes := List.replicate recvPacketSize 0

theorem foreign_accepted : (icmpEcho 7 (fun _ => packetSize) freshPacket [.polled (some foreignReply)]).result = some 0 ∧
    ¬Answered 7 (fun _ => packetSize) freshPacket [.polled (some foreignReply)] := by
  have hreply : icmpEcho 7 (fun _ => packetSize) freshPacket [.polled (some foreignReply)] =
      ⟨some 0, [foreignReply]⟩ := by decide
  refine ⟨by rw [hreply], fun h => ?_⟩
  rw [Answered, hreply] at h
  obtain ⟨p, hp, ha⟩ := h rfl
  rw [List.mem_singleton] at hp
  subst hp
  have hid : icmpId foreignReply = 0 := by decide
  have := ha.identified
  rw [hid] at this
  cases this

end LinuxRecovery.IcmpEcho
