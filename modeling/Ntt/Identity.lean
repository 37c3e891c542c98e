import Ntt.Evm.Outbound
import Ntt.Solana.Codec

/-!
# The Identity of a Message

A message is known by its digest, the hash of its source chain and its encoding. The encoding
tells all messages apart, a manager never sends two messages with one sequence, and the Solana
program hashes the same bytes as the contracts. So a digest stands for one transfer, everywhere.

## Main results

* `message_identity`: the three together.
-/

namespace Ntt

open Reentrant

/-- The sequence and the message that an action sends. -/
def Action.sentMessage : Action → Option (UInt64 × NttManagerMessage)
  | .send n _ m _ _ => some (n, m)
  | _ => none

/-- The sequence of a message that is sent is sent. -/
theorem Action.sends_of_sentMessage {a : Action} {n : UInt64} {m : NttManagerMessage}
    (h : a.sentMessage = some (n, m)) : a.sends n = true := by
  cases a with
  | send n' chain m' peer transceivers =>
      obtain ⟨rfl, -⟩ := Prod.mk.inj (Option.some.inj h)
      exact beq_self_eq_true n'
  | _ => cases h

/-- The messages sent, with their sequences, newest first. -/
def sentMessages (log : List LogEntry) : List (UInt64 × NttManagerMessage) :=
  log.filterMap fun e => e.act.sentMessage

/-- Payloads that fit make the hashed bytes of distinct pairs distinct. -/
theorem digestBytes_eq_iff {c c' : UInt16} {m m' : NttManagerMessage}
    (hm : m.payload.length ≤ 65535) (hm' : m'.payload.length ≤ 65535) :
    ∃ b b', encodeNttManagerMessage m = .ok b ∧ encodeNttManagerMessage m' = .ok b' ∧
      (digestBytes c b = digestBytes c' b' ↔ (c, m) = (c', m')) := by
  obtain ⟨b, hb⟩ := (wire_format_strict BytesParsing.reference_advancing).nttManagerMessage.encodes
    m hm
  obtain ⟨b', hb'⟩ :=
    (wire_format_strict BytesParsing.reference_advancing).nttManagerMessage.encodes m' hm'
  refine ⟨b, b', hb, hb', fun h => ?_, fun h => ?_⟩
  · obtain ⟨rfl, rfl⟩ := digestBytes_inj h
    rw [encodeNttManagerMessage_inj hb hb']
  · cases h
    rw [Except.ok.inj (hb.symm.trans hb')]

namespace NttManager

variable {M : NttManager} {R : Rules} {owner : Address} {limit : RateLimitParams}
  {log : List LogEntry} {st : Storage}

/-- What is hashed for the messages sent. -/
def sentBytes (M : NttManager) (log : List LogEntry) : List Bytes :=
  (sentMessages log).filterMap fun p =>
    (encodeNttManagerMessage p.2).toOption.map (digestBytes M.chainId)

theorem mem_sentBytes {p : UInt64 × NttManagerMessage} (hp : p ∈ sentMessages log) {b : Bytes}
    (hb : encodeNttManagerMessage p.2 = .ok b) : digestBytes M.chainId b ∈ M.sentBytes log :=
  List.mem_filterMap.mpr ⟨p, hp, by rw [hb]; rfl⟩

/-- No sequence is sent twice. -/
theorem History.sentMessages_nodup (h : M.History R (.initial owner limit) log st) :
    ((sentMessages log).map Prod.fst).Nodup := by
  induction h with
  | nil => exact List.nodup_nil
  | @cons log st ctx a hlog ha ih =>
      rw [sentMessages, List.filterMap_cons]
      cases a with
      | send n chain m peer transceivers =>
          obtain ⟨-, -, -, -, t, queuedAt, ht, -⟩ := ha
          refine List.nodup_cons.mpr ⟨fun hn => ?_, ih⟩
          have hzero := hlog.finalisations_eq n
          rw [ht] at hzero
          obtain ⟨⟨n', m'⟩, hmem, hn'⟩ := List.mem_map.mp hn
          obtain ⟨e, he, hsent⟩ := List.mem_filterMap.mp hmem
          obtain rfl : n' = n := hn'
          have hsends := Action.sends_of_sentMessage hsent
          exact absurd hzero (List.countP_pos_iff.mpr ⟨e, he, by rw [hsends]; rfl⟩).ne'
      | _ => exact ih

/-- A message that was sent has an encoding, and its sequence for an id. -/
theorem History.sentMessage_id (h : M.History R (.initial owner limit) log st)
    {p : UInt64 × NttManagerMessage} (hp : p ∈ sentMessages log) :
    p.2.id = BitVec.ofNat 256 p.1.toNat ∧ ∃ b, encodeNttManagerMessage p.2 = .ok b := by
  obtain ⟨e, he, hsent⟩ := List.mem_filterMap.mp hp
  obtain ⟨newer, older, rfl⟩ := List.append_of_mem he
  have ha := h.before.2
  cases hact : e.act with
  | send n chain m peer transceivers =>
      rw [hact] at ha hsent
      obtain rfl := Option.some.inj hsent
      obtain ⟨-, -, -, -, t, queuedAt, -, -, -, hm, henc⟩ := ha
      refine ⟨?_, henc⟩
      simp only [messageOf, encodeTransfer, Except.bind_eq_ok, Except.pure_eq_ok] at hm
      obtain ⟨payload, -, rfl⟩ := hm
      rfl
  | _ =>
      rw [hact] at hsent
      cases hsent

/-- Distinct sent messages have distinct digests, where the hash does not collide. -/
theorem History.digests_nodup (h : M.History R (.initial owner limit) log st)
    (hhash : Set.InjOn M.keccak256 {b | b ∈ M.sentBytes log}) :
    ((sentMessages log).map fun p => M.digest M.chainId p.2).Nodup := by
  refine List.pairwise_map.mpr (List.Pairwise.imp_of_mem ?_ (List.pairwise_map.mp
    h.sentMessages_nodup))
  intro p p' hp hp' hne hdigest
  obtain ⟨hid, b, hb⟩ := h.sentMessage_id hp
  obtain ⟨hid', b', hb'⟩ := h.sentMessage_id hp'
  have hd : M.digest M.chainId p.2 = .ok (M.keccak256 (digestBytes M.chainId b)) := by
    rw [digest, nttManagerMessageDigest, hb]
    rfl
  obtain ⟨-, hm⟩ := digest_inj hhash hd (hdigest ▸ hd)
    (fun _ => mem_sentBytes hp) (fun _ => mem_sentBytes hp')
  rw [hm, hid'] at hid
  have htoNat := congrArg BitVec.toNat hid
  rw [BitVec.toNat_ofNat, BitVec.toNat_ofNat, Nat.mod_eq_of_lt (p'.1.toNat_lt.trans (by decide)),
    Nat.mod_eq_of_lt (p.1.toNat_lt.trans (by decide))] at htoNat
  exact hne (UInt64.toNat_inj.mp htoNat.symm)

end NttManager

namespace Solana

/-- The program hashes what the contracts hash. -/
theorem NttManagerMessage.keccak256Bytes_eq {W : WormholeIo} (hW : W.Lawful)
    (m : NttManagerMessage (NativeTokenTransfer EmptyPayload)) (chain : ChainId) :
    encodeNativeTokenTransfer m.payload.toEvm = .ok m.toEvm.payload ∧
      ∃ b, encodeNttManagerMessage m.toEvm = .ok b ∧
        keccak256Bytes W (NativeTokenTransfer.impl W EmptyPayload.impl) m chain =
          .ok (digestBytes chain.id b) := by
  refine ⟨m.payload.encode_toEvm, _, m.encode_toEvm, ?_⟩
  rw [keccak256Bytes, hW.writePayload, NttManagerMessage.write_transfer hW]
  rfl

/-- Every transfer of the contracts without additional payload is one of the program. -/
theorem NativeTokenTransfer.exists_toEvm {x : Ntt.NativeTokenTransfer}
    (h : x.additionalPayload = []) : ∃ m : NativeTokenTransfer EmptyPayload, m.toEvm = x := by
  refine ⟨⟨⟨x.amount.getAmount, x.amount.getDecimals⟩, x.sourceToken, ⟨x.toChain⟩, x.recipient,
    {}⟩, ?_⟩
  rw [toEvm, TrimmedAmount.toEvm, TrimmedAmount.pack_getAmount_getDecimals, ← h]

end Solana

/-- **The identity of a message.** The bytes hashed for two pairs of a chain and a message are
equal just when the pairs are; so wherever a run of a manager is, no two messages sent have one
digest, if the hash does not collide on what was hashed; and the Solana program hashes the same
bytes for the same chain and message, which may be any message without additional payload. -/
theorem message_identity {M : NttManager} {owner : Address} {limit : RateLimitParams}
    {token : Ledger} {c : Config managerInterface State Error}
    (h : Reachable M.contract NttManager.Rules.any.environment
      ⟨.initial owner limit, token, []⟩ c)
    (hhash : Set.InjOn M.keccak256 {b | b ∈ M.sentBytes c.st.log})
    {W : Solana.WormholeIo} (hW : W.Lawful) :
    (∀ {c c' : UInt16} {m m' : NttManagerMessage}, m.payload.length ≤ 65535 →
      m'.payload.length ≤ 65535 → ∃ b b', encodeNttManagerMessage m = .ok b ∧
        encodeNttManagerMessage m' = .ok b' ∧
          (digestBytes c b = digestBytes c' b' ↔ (c, m) = (c', m'))) ∧
    ((sentMessages c.st.log).map fun p => M.digest M.chainId p.2).Nodup ∧
    (∀ (m : Solana.NttManagerMessage (Solana.NativeTokenTransfer Solana.EmptyPayload))
      (chain : Solana.ChainId), ∃ payload b,
        encodeNativeTokenTransfer m.payload.toEvm = .ok payload ∧
          encodeNttManagerMessage ⟨m.id, m.sender, payload⟩ = .ok b ∧
            m.keccak256Bytes W (Solana.NativeTokenTransfer.impl W Solana.EmptyPayload.impl) chain =
              .ok (digestBytes chain.id b)) ∧
    (∀ x : NativeTokenTransfer, x.additionalPayload = [] →
      ∃ m : Solana.NativeTokenTransfer Solana.EmptyPayload, m.toEvm = x) := by
  refine ⟨digestBytes_eq_iff, (NttManager.history_of_reachable h).digests_nodup hhash,
    fun m chain => ?_, fun x => Solana.NativeTokenTransfer.exists_toEvm⟩
  obtain ⟨hpayload, b, hb, hkeccak⟩ := Solana.NttManagerMessage.keccak256Bytes_eq hW m chain
  exact ⟨_, b, hpayload, hb, hkeccak⟩

namespace NttManager

/-- The hashes of the two messages of the sample below, told apart by the last byte of the id. -/
def sampleHash (b : Bytes) : Bytes32 :=
  if b[33]? = some 0 then 0xa40a7feb37fbd59b5eddb56a6bc9560f36d9edaa81e6eb3948459c19d9ae295d
  else 0x5020f4d017457e7d17d8a74fab7ef189d6d197ba7dd4b637d5cf3f63c203f894

/-- Two transfers of the same amount to the same recipient have two digests. -/
theorem sample_message_identity : ∃ s, (sample sampleHash).runCalls 18 (sampleLimited ++
      [(sampleContext 0x5000, .transfer (5 * 10 ^ 17) 4 0x4000 0x4000 false [0]),
        (sampleContext 0x5000, .transfer (5 * 10 ^ 17) 4 0x4000 0x4000 false [0])])
      sampleState [0, 5 * 10 ^ 17, 0, 5 * 10 ^ 17] = .ok s ∧
    (sentMessages s.log).length = 2 ∧
    ((sentMessages s.log).map fun p => (sample sampleHash).digest 2 p.2).Nodup := by
  obtain ⟨s, hs, hp⟩ := exists_of_any (x := (sample sampleHash).runCalls 18 (sampleLimited ++
      [(sampleContext 0x5000, .transfer (5 * 10 ^ 17) 4 0x4000 0x4000 false [0]),
        (sampleContext 0x5000, .transfer (5 * 10 ^ 17) 4 0x4000 0x4000 false [0])])
      sampleState [0, 5 * 10 ^ 17, 0, 5 * 10 ^ 17])
    (p := fun s => (sentMessages s.log).length = 2 ∧
      ∀ b ∈ (sample sampleHash).sentBytes s.log, ∀ b' ∈ (sample sampleHash).sentBytes s.log,
        sampleHash b = sampleHash b' → b = b') (by decide +kernel)
  obtain ⟨htwo, hinj⟩ := of_decide_eq_true hp
  exact ⟨s, hs, htwo, (message_identity (reachable_of_runCalls hs)
    (fun b hb b' hb' => hinj b hb b' hb') Solana.WormholeIo.reference_lawful).2.1⟩

end NttManager

end Ntt
