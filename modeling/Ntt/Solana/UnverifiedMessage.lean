import Ntt.Lib.Buffer
import Ntt.Solana.Accounts

/-!
# Uploading an Unverified Message

A VAA does not fit in one transaction, so that its body is uploaded to an account in chunks. A post
creates the account if it is not there, enlarges its span as far as the chunk goes, and copies the
chunk to the offset that the caller chose. What lies between two chunks is zero until it is posted.

An account belongs to a payer and a seed. An instruction that fails leaves all accounts as they
were. Whether the runtime creates an account of a given size is the parameter `creates`.

## Main results

* `post_uploads`: a post of a chunk adds its range to what is assembled.
* `run_uploads`: what is assembled after a run.
* `upload_assembles`: the upload, with what one post changes and what it rejects.
-/

namespace Ntt.Solana

open Buffer

/-- The account of a body: its span, and the space it was created with. -/
structure VaaBody where
  space : ℕ
  span : Bytes
deriving DecidableEq, Repr

/-- The bodies, by payer and seed. -/
abbrev VaaBodies : Type := Pubkey × UInt64 → Option VaaBody

structure PostUnverifiedMessageAccountArgs where
  /-- Arbitrary seed to identify the message. -/
  seed : UInt64
  offset : UInt32
  chunk : Bytes
  messageSize : UInt32
deriving DecidableEq, Repr

/-- How an upload fails. -/
inductive UploadError where
  | invalidArgument
  | accountDataTooSmall
  | constraintSpace
  | accountNotInitialized
  | accountDidNotSerialize
  | panicked
  /-- The runtime does not create the account. -/
  | external
deriving DecidableEq, Repr

/-- Fails when a condition holds. -/
def failIf (c : Prop) [Decidable c] (e : UploadError) : Except UploadError Unit :=
  if c then .error e else .ok ()

section

variable (creates : ℕ → Bool)

/-- `init_if_needed`: an account that is there has to have the space that is asked for. -/
def initIfNeeded (space : ℕ) : Option VaaBody → Except UploadError VaaBody
  | none => if creates space then .ok { space, span := [] } else .error .external
  | some vaaBody => if vaaBody.space = space then .ok vaaBody else .error .constraintSpace

/-- Serializes an account into its space, behind a discriminator and a length. -/
def exit (vaaBody : VaaBody) : Except UploadError VaaBody :=
  if 8 + 4 + vaaBody.span.length ≤ vaaBody.space then .ok vaaBody
  else .error .accountDidNotSerialize

/-- `copy_from_slice` into a range. -/
def copyFromSlice (span chunk : Bytes) (offset : ℕ) : Except UploadError Bytes :=
  match write span chunk offset with
  | some span => .ok span
  | none => .error .panicked

def postUnverifiedMessageAccount (payer : Pubkey) (args : PostUnverifiedMessageAccountArgs)
    (bodies : VaaBodies) : Except UploadError VaaBodies := do
  let key := (payer, args.seed)
  let vaaBody ← initIfNeeded creates (8 + 4 + args.messageSize.toNat) (bodies key)
  failIf (args.chunk = []) .invalidArgument
  let offset := args.offset.toNat
  let stop := offset + args.chunk.length
  failIf (stop > args.messageSize.toNat) .accountDataTooSmall
  let span := if vaaBody.span.length < stop then resize vaaBody.span stop 0 else vaaBody.span
  let span ← copyFromSlice span args.chunk offset
  let vaaBody ← exit { vaaBody with span }
  return Function.update bodies key (some vaaBody)

def closeUnverifiedMessageAccount (payer : Pubkey) (seed : UInt64) (bodies : VaaBodies) :
    Except UploadError VaaBodies :=
  match bodies (payer, seed) with
  | some _ => .ok (Function.update bodies (payer, seed) none)
  | none => .error .accountNotInitialized

/-- The instructions, each with the payer that signs it. -/
inductive UploadInstruction where
  | post (payer : Pubkey) (args : PostUnverifiedMessageAccountArgs)
  | close (payer : Pubkey) (seed : UInt64)
deriving DecidableEq, Repr

namespace UploadInstruction

/-- The account that an instruction is about. -/
def key : UploadInstruction → Pubkey × UInt64
  | post payer args => (payer, args.seed)
  | close payer seed => (payer, seed)

def execute : UploadInstruction → VaaBodies → Except UploadError VaaBodies
  | post payer args => postUnverifiedMessageAccount creates payer args
  | close payer seed => closeUnverifiedMessageAccount payer seed

/-- An instruction that fails leaves all accounts as they were. -/
def step (i : UploadInstruction) (bodies : VaaBodies) : VaaBodies :=
  match i.execute creates bodies with
  | .ok bodies => bodies
  | .error _ => bodies

def run (l : List UploadInstruction) (bodies : VaaBodies) : VaaBodies :=
  l.foldl (fun bodies i => i.step creates bodies) bodies

end UploadInstruction

end

/-- The span of an account, if there is one. -/
def VaaBodies.span (bodies : VaaBodies) (key : Pubkey × UInt64) : Bytes :=
  ((bodies key).map VaaBody.span).getD []

theorem failIf_eq_ok {c : Prop} [Decidable c] {e : UploadError} {u : Unit} :
    failIf c e = .ok u ↔ ¬ c := by
  rw [failIf]
  by_cases h : c <;> simp [h]

/-! ### One post -/

/-- The positions that a post writes. -/
def PostUnverifiedMessageAccountArgs.Covers (args : PostUnverifiedMessageAccountArgs) (i : ℕ) :
    Prop :=
  args.offset.toNat ≤ i ∧ i < args.offset.toNat + args.chunk.length

/-- The span that a chunk is copied into. -/
def grownSpan (span : Bytes) (stop : ℕ) : Bytes :=
  if span.length < stop then resize span stop 0 else span

theorem length_grownSpan (span : Bytes) (stop : ℕ) :
    (grownSpan span stop).length = max span.length stop := by
  rw [grownSpan]
  split
  · rename_i h
    rw [length_resize h.le, Nat.max_eq_right h.le]
  · rename_i h
    rw [Nat.max_eq_left (Nat.le_of_not_lt h)]

theorem getElem?_grownSpan {span : Bytes} {stop i : ℕ} (hi : i < span.length) :
    (grownSpan span stop)[i]? = span[i]? := by
  rw [grownSpan]
  split
  · rename_i h
    exact getElem?_resize h.le hi
  · rfl

theorem getD_grownSpan (span : Bytes) (stop i : ℕ) :
    (grownSpan span stop)[i]?.getD 0 = span[i]?.getD 0 := by
  rw [grownSpan]
  split
  · rename_i h
    exact getD_resize h.le i
  · rfl

section

variable {creates : ℕ → Bool} {payer : Pubkey} {args : PostUnverifiedMessageAccountArgs}
  {bodies bodies' : VaaBodies}

/-- What a post that succeeds does. -/
theorem post_eq_ok : postUnverifiedMessageAccount creates payer args bodies = .ok bodies' ↔
    ∃ vaaBody span, initIfNeeded creates (8 + 4 + args.messageSize.toNat)
        (bodies (payer, args.seed)) = .ok vaaBody ∧ args.chunk ≠ [] ∧
      args.offset.toNat + args.chunk.length ≤ args.messageSize.toNat ∧
      write (grownSpan vaaBody.span (args.offset.toNat + args.chunk.length)) args.chunk
        args.offset.toNat = some span ∧
      8 + 4 + span.length ≤ vaaBody.space ∧
      bodies' = Function.update bodies (payer, args.seed) (some { vaaBody with span }) := by
  have hcopy {span chunk span' : Bytes} {offset : ℕ} :
      copyFromSlice span chunk offset = .ok span' ↔ write span chunk offset = some span' := by
    rw [copyFromSlice]
    cases write span chunk offset <;> simp
  have hexit {vaaBody vaaBody' : VaaBody} : exit vaaBody = .ok vaaBody' ↔
      8 + 4 + vaaBody.span.length ≤ vaaBody.space ∧ vaaBody' = vaaBody := by
    rw [exit]
    split <;> simp_all [eq_comm]
  simp only [postUnverifiedMessageAccount, Except.bind_eq_ok, Except.pure_eq_ok, failIf_eq_ok,
    hcopy, hexit, not_lt]
  constructor
  · rintro ⟨vaaBody, hinit, _, hne, _, hle, span, hspan, _, ⟨hfits, rfl⟩, rfl⟩
    exact ⟨vaaBody, span, hinit, hne, hle, hspan, hfits, rfl⟩
  · rintro ⟨vaaBody, span, hinit, hne, hle, hspan, hfits, rfl⟩
    exact ⟨vaaBody, hinit, (), hne, (), hle, span, hspan, _, ⟨hfits, rfl⟩, rfl⟩

/-- The account that a post finds or creates. -/
theorem initIfNeeded_span {space : ℕ} {key : Pubkey × UInt64} {vaaBody : VaaBody}
    (h : initIfNeeded creates space (bodies key) = .ok vaaBody) :
    vaaBody.span = bodies.span key ∧ vaaBody.space = space := by
  rw [VaaBodies.span]
  cases hkey : bodies key with
  | none =>
      rw [hkey, initIfNeeded] at h
      split at h
      · obtain rfl := Except.ok.inj h
        exact ⟨rfl, rfl⟩
      · cases h
  | some found =>
      rw [hkey, initIfNeeded] at h
      split at h
      · rename_i hspace
        obtain rfl := Except.ok.inj h
        exact ⟨rfl, hspace⟩
      · cases h

/-- **What a post changes.** It touches one account, puts its chunk there, and leaves every other
byte as it was, a byte beyond the span being zero. -/
theorem post_frame (h : postUnverifiedMessageAccount creates payer args bodies = .ok bodies') :
    (∀ key ≠ (payer, args.seed), bodies' key = bodies key) ∧
    args.chunk <+: (bodies'.span (payer, args.seed)).drop args.offset.toNat ∧
    (∀ i, ¬ args.Covers i → (bodies'.span (payer, args.seed))[i]?.getD 0 =
      (bodies.span (payer, args.seed))[i]?.getD 0) ∧
    (bodies'.span (payer, args.seed)).length =
      max (bodies.span (payer, args.seed)).length (args.offset.toNat + args.chunk.length) := by
  obtain ⟨vaaBody, span, hinit, -, -, hspan, -, rfl⟩ := post_eq_ok.mp h
  have hnew : VaaBodies.span (Function.update bodies (payer, args.seed)
      (some { vaaBody with span })) (payer, args.seed) = span := by
    rw [VaaBodies.span, Function.update_self]
    rfl
  rw [hnew, ← (initIfNeeded_span hinit).1]
  refine ⟨fun key hkey => Function.update_of_ne hkey .., ?_, fun i hi => ?_, ?_⟩
  · refine List.prefix_iff_getElem?.mpr fun i hi => ?_
    rw [List.getElem?_drop, getElem?_write hspan, if_pos ⟨by omega, by omega⟩,
      Nat.add_sub_cancel_left, List.getElem?_eq_getElem hi]
  · rw [PostUnverifiedMessageAccountArgs.Covers] at hi
    rw [getElem?_write hspan, if_neg hi, getD_grownSpan]
  · rw [length_write hspan, length_grownSpan]

/-- A post that would pass the size of its message fails, whatever account there is. -/
theorem post_overlong (h : args.offset.toNat + args.chunk.length > args.messageSize.toNat) :
    ∃ e, postUnverifiedMessageAccount creates payer args bodies = .error e := by
  cases hpost : postUnverifiedMessageAccount creates payer args bodies with
  | error e => exact ⟨e, rfl⟩
  | ok bodies' =>
      obtain ⟨_, _, -, -, hle, -⟩ := post_eq_ok.mp hpost
      omega

end

/-! ### Uploads -/

/-- A post of a part of the message at its own offset. -/
structure IsChunk (message : Bytes) (messageSize : UInt32)
    (args : PostUnverifiedMessageAccountArgs) : Prop where
  nonempty : args.chunk ≠ []
  messageSize : args.messageSize = messageSize
  part : args.chunk <+: message.drop args.offset.toNat

/-- The account of an upload, when these positions were posted. -/
structure Uploading (message : Bytes) (messageSize : UInt32) (posted : ℕ → Prop)
    (bodies : VaaBodies) (key : Pubkey × UInt64) : Prop where
  space : ∀ vaaBody, bodies key = some vaaBody → vaaBody.space = 8 + 4 + messageSize.toNat
  assembled : Assembled message posted (bodies.span key)

section

variable {creates : ℕ → Bool} {message : Bytes} {messageSize : UInt32} {posted : ℕ → Prop}
  {bodies : VaaBodies} {key : Pubkey × UInt64}
  (hcreates : creates (8 + 4 + messageSize.toNat) = true)
  (hsize : message.length ≤ messageSize.toNat)
include hcreates hsize

/-- **One chunk.** A post of a chunk succeeds and adds its positions. -/
theorem post_uploads {args : PostUnverifiedMessageAccountArgs}
    (h : Uploading message messageSize posted bodies key) (hkey : args.seed = key.2)
    (hchunk : IsChunk message messageSize args) :
    ∃ bodies', postUnverifiedMessageAccount creates key.1 args bodies = .ok bodies' ∧
      Uploading message messageSize (fun i => posted i ∨ args.Covers i) bodies' key := by
  obtain ⟨hne, rfl, hpart⟩ := hchunk
  have hkey' : (key.1, args.seed) = key := by rw [hkey]
  have hle := hpart.length_le
  rw [List.length_drop] at hle
  have hpos := List.length_pos_iff.mpr hne
  have hinit : ∃ vaaBody, initIfNeeded creates (8 + 4 + args.messageSize.toNat) (bodies key) =
      .ok vaaBody := by
    cases hbody : bodies key with
    | none => exact ⟨_, if_pos hcreates⟩
    | some vaaBody => exact ⟨_, if_pos (h.space _ hbody)⟩
  obtain ⟨vaaBody, hinit⟩ := hinit
  obtain ⟨hspan, hspace⟩ := initIfNeeded_span hinit
  have hgrown := length_grownSpan vaaBody.span (args.offset.toNat + args.chunk.length)
  have hassembled := h.assembled
  rw [← hspan] at hassembled
  have hspanle := hassembled.length_le
  obtain ⟨span, hwrite⟩ : ∃ span, write (grownSpan vaaBody.span
      (args.offset.toNat + args.chunk.length)) args.chunk args.offset.toNat = some span :=
    ⟨_, if_pos (by omega)⟩
  have hspan' := length_write hwrite
  refine ⟨_, post_eq_ok.mpr ⟨vaaBody, span, by rw [hkey', hinit], hne, by omega, hwrite, by omega,
    rfl⟩, ?_, ?_⟩
  · intro found hfound
    rw [hkey', Function.update_self] at hfound
    obtain rfl := Option.some.inj hfound
    exact hspace
  · rw [VaaBodies.span, hkey', Function.update_self]
    exact hassembled.write hpart hne hgrown (fun i hi => getElem?_grownSpan hi) hwrite

end

/-! ### Runs -/

namespace UploadInstruction

variable {creates : ℕ → Bool} {bodies : VaaBodies} {key : Pubkey × UInt64}

/-- An instruction touches its own account only. -/
theorem step_of_ne {i : UploadInstruction} (hkey : key ≠ i.key) :
    i.step creates bodies key = bodies key := by
  rw [step]
  cases h : i.execute creates bodies with
  | error e => rfl
  | ok bodies' =>
      cases i with
      | post payer args => exact (post_frame h).1 key hkey
      | close payer seed =>
          rw [execute, closeUnverifiedMessageAccount] at h
          split at h
          · obtain rfl := Except.ok.inj h
            exact Function.update_of_ne hkey ..
          · cases h

/-- The position was written by a post to the account. -/
def Posted (l : List UploadInstruction) (key : Pubkey × UInt64) (i : ℕ) : Prop :=
  ∃ args, .post key.1 args ∈ l ∧ args.seed = key.2 ∧ args.Covers i

variable {message : Bytes} {messageSize : UInt32}
  (hcreates : creates (8 + 4 + messageSize.toNat) = true)
  (hsize : message.length ≤ messageSize.toNat)
include hcreates hsize

/-- **Every run.** As long as the account is only posted chunks of the message to, it holds at each
position that was posted what the message has there. -/
theorem run_uploads (l : List UploadInstruction) (hnew : bodies key = none)
    (hl : ∀ i ∈ l, i.key = key → ∃ args, i = .post key.1 args ∧ IsChunk message messageSize args) :
    Uploading message messageSize (Posted l key) (run creates l bodies) key := by
  induction l using List.reverseRecOn with
  | nil =>
      refine ⟨fun vaaBody h => ?_, ?_⟩
      · cases hnew.symm.trans h
      · change Assembled message _ (VaaBodies.span bodies key)
        rw [VaaBodies.span, hnew]
        exact Assembled.nil.congr fun i ⟨_, h, _⟩ => nomatch h
  | append_singleton l last ih =>
      have ih := ih fun i hi => hl i (List.mem_append_left _ hi)
      rw [run, List.foldl_concat]
      change Uploading _ _ _ (last.step creates (run creates l bodies)) key
      by_cases hkey : last.key = key
      · obtain ⟨args, rfl, hchunk⟩ := hl last (by simp) hkey
        have hseed : args.seed = key.2 := congrArg Prod.snd hkey
        obtain ⟨bodies', hpost, h⟩ := post_uploads hcreates hsize ih hseed hchunk
        have hstep : step creates (.post key.1 args) (run creates l bodies) = bodies' := by
          rw [step, execute, hpost]
        rw [hstep]
        refine ⟨h.space, h.assembled.congr fun i hi => ?_⟩
        obtain ⟨args', hmem, hseed', hcovers⟩ := hi
        rcases List.mem_append.mp hmem with hmem | hmem
        · exact .inl ⟨args', hmem, hseed', hcovers⟩
        · cases List.mem_singleton.mp hmem
          exact .inr hcovers
      · have hsame : last.step creates (run creates l bodies) key = run creates l bodies key :=
          step_of_ne (Ne.symm hkey)
        refine ⟨fun vaaBody h => ih.space vaaBody (hsame ▸ h), ?_⟩
        rw [VaaBodies.span, hsame]
        refine ih.assembled.congr fun i hi => ?_
        obtain ⟨args, hmem, hseed, hcovers⟩ := hi
        rcases List.mem_append.mp hmem with hmem | hmem
        · exact ⟨args, hmem, hseed, hcovers⟩
        · cases List.mem_singleton.mp hmem
          exact absurd (show (post key.1 args).key = key from Prod.ext rfl hseed) hkey

end UploadInstruction

/-- **Uploads.** Take any run in which an account, new at its beginning, is only posted non-empty
chunks of a message to, each at its own offset and with the declared size. Then every chunk that
was posted is there; and if the chunks cover the message, the span is the message. A post changes
nothing outside of its range, and one that would pass the declared size fails. -/
theorem upload_assembles (creates : ℕ → Bool) :
    (∀ (key : Pubkey × UInt64) (message : Bytes) (messageSize : UInt32) (bodies : VaaBodies)
      (l : List UploadInstruction), creates (8 + 4 + messageSize.toNat) = true →
      message.length ≤ messageSize.toNat → bodies key = none →
      (∀ i ∈ l, i.key = key → ∃ args, i = .post key.1 args ∧ IsChunk message messageSize args) →
        let span := (UploadInstruction.run creates l bodies).span key
        (∀ args, .post key.1 args ∈ l → args.seed = key.2 →
          args.chunk <+: span.drop args.offset.toNat) ∧
        ((∀ i < message.length, UploadInstruction.Posted l key i) → span = message)) ∧
    (∀ payer args bodies bodies',
      postUnverifiedMessageAccount creates payer args bodies = .ok bodies' →
        (∀ key ≠ (payer, args.seed), bodies' key = bodies key) ∧
        (∀ i, ¬ args.Covers i → (bodies'.span (payer, args.seed))[i]?.getD 0 =
          (bodies.span (payer, args.seed))[i]?.getD 0) ∧
        (bodies.span (payer, args.seed)).length ≤ (bodies'.span (payer, args.seed)).length) ∧
    ∀ payer (args : PostUnverifiedMessageAccountArgs) bodies,
      args.offset.toNat + args.chunk.length > args.messageSize.toNat →
        (UploadInstruction.post payer args).step creates bodies = bodies := by
  refine ⟨?_, ?_, ?_⟩
  · intro key message messageSize bodies l hcreates hsize hnew hl
    have h := (UploadInstruction.run_uploads hcreates hsize l hnew hl).assembled
    refine ⟨fun args hmem hseed => ?_, h.complete⟩
    obtain ⟨_, hpost, hchunk⟩ := hl _ hmem (Prod.ext rfl hseed)
    cases hpost
    exact h.chunk hchunk.part fun i hle hlt => ⟨args, hmem, hseed, hle, hlt⟩
  · intro payer args bodies bodies' h
    obtain ⟨hother, -, hframe, hlen⟩ := post_frame h
    exact ⟨hother, hframe, hlen ▸ Nat.le_max_left ..⟩
  · intro payer args bodies h
    obtain ⟨e, he⟩ : ∃ e, postUnverifiedMessageAccount creates payer args bodies = .error e :=
      post_overlong h
    rw [UploadInstruction.step, UploadInstruction.execute, he]

/-- Five bytes in three chunks, the end first and with an overlap. -/
def sampleUpload : List UploadInstruction :=
  [.post 7 ⟨1, 3, [4, 5], 8⟩, .post 7 ⟨1, 0, [1, 2], 8⟩, .post 7 ⟨1, 1, [2, 3, 4], 8⟩]

theorem sample_upload_assembles :
    (UploadInstruction.run (fun space => space ≤ 10240) sampleUpload fun _ => none).span (7, 1) =
      [1, 2, 3, 4, 5] := by
  refine ((upload_assembles fun space => space ≤ 10240).1 (7, 1) [1, 2, 3, 4, 5] 8 _ sampleUpload
    rfl (by decide) rfl ?_).2 ?_
  · intro i hi _
    simp only [sampleUpload, List.mem_cons, List.not_mem_nil, or_false] at hi
    rcases hi with rfl | rfl | rfl
    · exact ⟨_, rfl, by decide, rfl, by decide⟩
    · exact ⟨_, rfl, by decide, rfl, by decide⟩
    · exact ⟨_, rfl, by decide, rfl, by decide⟩
  · intro i hi
    by_cases h₂ : i < 2
    · exact ⟨⟨1, 0, [1, 2], 8⟩, by decide, rfl, Nat.zero_le _, h₂⟩
    · by_cases h₃ : i < 3
      · exact ⟨⟨1, 1, [2, 3, 4], 8⟩, by decide, rfl, Nat.le_of_succ_le (Nat.le_of_not_lt h₂),
          Nat.lt_succ_of_lt h₃⟩
      · exact ⟨⟨1, 3, [4, 5], 8⟩, by decide, rfl, Nat.le_of_not_lt h₃, hi⟩

end Ntt.Solana
