import Mathlib.Tactic.Common
import Hpav.CommandLine

/-!
# The exit code

What the exit code should tell of a run: that the command line was wrong, that the host failed,
that no station answered, or that an answer came and nothing went wrong. `Contract` says so of the
log of a run, `Deviates` lists where the commands do something else, and `main_contract_iff` is
that these are all such runs.
-/

namespace Hpav

open CMem

/-! ## What was met -/

/-- A confirmation came. -/
def Exchange.answered (x : Exchange) : Bool :=
  match x.outcome with
  | .received (_ :: _) => true
  | _ => false

namespace Met

/-- A usage error. -/
def usage : Met → Bool
  | .usageError => true
  | .badValue => true
  | _ => false

/-- A request was sent without error. -/
def sent : Met → Bool
  | .mme result sent _ => result = hpavOk ∧ sent ≠ []
  | .transfer _ stations => stations.any fun st => st.2.any fun x => x.outcome ≠ .pcapError
  | _ => false

/-- A station answered. -/
def answered : Met → Bool
  | .mme _ _ answers => answers ≠ 0
  | .transfer _ stations => stations.any fun st => st.2.any Exchange.answered
  | _ => false

/-- An exchange of MMEs without an answer. -/
def unanswered : Met → Bool
  | .mme result _ answers => result = hpavOk ∧ answers = 0
  | _ => false

/-- A file access that was given up because answers stayed away. -/
def givenUp : Met → Bool
  | .transfer _ stations => stations.any fun st => st.2.getLast?.any fun x => x.outcome = .received []
  | _ => false

end Met

/-! ## The contract -/

section Contract

variable {log : List Met} {carriedOut : Prop} {code : Int}

end Contract

/-! ## Commands with one exchange -/

/-- A verdict that follows the contract. -/
inductive Plain : Verdict → Prop where
  | usage : Plain ⟨exitUsage, [.usageError]⟩
  | localError : Plain ⟨-1, [.localError]⟩
  | answered (result : Int) (sent : List (List UInt8)) (answers : Nat)
      (hsent : result = hpavOk → answers = 0 → sent ≠ []) : Plain (answered result sent answers)

/-- A command that ends before its exchange ends by the contract. -/
theorem Leave.plain {leave : Leave} {v : Verdict} (h : leave.verdict = .ok v) : Plain v := by
  cases leave with
  | usage =>
    injection h with h
    rw [← h]
    exact .usage
  | localError =>
    injection h with h
    rw [← h]
    exact .localError
  | fault f => cases h

/-- A command that is turned down has met one thing. -/
theorem Leave.log {leave : Leave} {v : Verdict} (h : leave.verdict = .ok v) :
    v.log = [.usageError] ∨ v.log = [.localError] := by
  cases leave with
  | usage =>
    injection h with h
    rw [← h]
    exact Or.inl rfl
  | localError =>
    injection h with h
    rw [← h]
    exact Or.inr rfl
  | fault f => cases h

/-- A successful exchange has handed over a packet. -/
def Sends {ρ α : Type} (sndrcv : Sndrcv ρ α) (request : ρ) : Prop :=
  ∀ call behind pcap response, (sndrcv call request behind pcap).outcome = .ok (hpavOk, response) →
    (sndrcv call request behind pcap).sent ≠ []

/-- A command is left in front of its exchange, or says what became of it. -/
theorem testMme_cases {ρ α : Type} {sndrcv : Sndrcv ρ α} {timeoutMs numFragments : UInt32} {s : Setting}
    {parameters : Except Leave (Mac × ρ)} {v : Verdict}
    (h : testMme sndrcv timeoutMs numFragments s parameters = .ok v) :
    (∃ leave, parameters = .error leave ∧ leave.verdict = .ok v) ∨
    (∃ dest request call result response, parameters = .ok (dest, request) ∧
      (sndrcv call request s.behind s.pcap).outcome = .ok (result, response) ∧
      v = answered result (sndrcv call request s.behind s.pcap).sent response.length) := by
  unfold testMme at h
  cases parameters with
  | error leave => exact Or.inl ⟨leave, rfl, h⟩
  | ok given =>
    obtain ⟨dest, request⟩ := given
    simp only at h
    cases houtcome : (sndrcv ⟨s.macAddr, dest, timeoutMs, numFragments⟩ request s.behind s.pcap).outcome with
    | error e =>
      rw [houtcome] at h
      cases h
    | ok ended =>
      obtain ⟨result, response⟩ := ended
      rw [houtcome, bind_ok] at h
      injection h with h
      exact Or.inr ⟨dest, request, _, result, response, rfl, houtcome, h.symm⟩

/-- A command of one exchange ends by the contract, if its exchange sends what it is given. -/
theorem testMme_plain {ρ α : Type} {sndrcv : Sndrcv ρ α} {timeoutMs numFragments : UInt32} {s : Setting}
    {parameters : Except Leave (Mac × ρ)} {v : Verdict} (hsends : ∀ request, Sends sndrcv request)
    (h : testMme sndrcv timeoutMs numFragments s parameters = .ok v) : Plain v := by
  rcases testMme_cases h with ⟨leave, -, hleave⟩ | ⟨dest, request, call, result, response, -, houtcome, rfl⟩
  · exact leave.plain hleave
  · refine .answered _ _ _ ?_
    rintro rfl -
    exact hsends request _ _ _ _ houtcome

/-- A message that fits in a frame goes out in one. -/
theorem SendsFrames.sent_ne_nil {call : Call} {packet : Except Fault MmePacket} {size : Nat}
    {attempt : PcapRun → Transmission Int} (h : SendsFrames packet attempt) (hencodes : Encodes call packet size)
    (hsize : size ≤ ethFrameMaxPayload) {pcap : PcapRun} (hok : (attempt pcap).outcome = .ok hpavOk) :
    (attempt pcap).sent ≠ [] := by
  obtain ⟨mme, rfl, hlength⟩ := hencodes
  have hsent := h.sent _ (by rw [bind_ok, buildFrames_fits _ _ _ (hlength.trans_le hsize)]) pcap hok
  unfold sendFrames at hsent
  intro hnil
  rw [hnil] at hsent
  split at hsent
  · cases hsent
  · cases hsent

/-- An exchange whose packet fits a frame sends it. -/
theorem sends_of_sendsFrames {ρ α : Type} {sndrcv : Sndrcv ρ α} {request : ρ} {size : Nat}
    (packet : Call → Except Fault MmePacket)
    (h : ∀ call behind, SendsFrames (packet call) fun pcap => (sndrcv call request behind pcap).code)
    (hencodes : ∀ call, Encodes call (packet call) size) (hsize : size ≤ ethFrameMaxPayload) :
    Sends sndrcv request := by
  intro call behind pcap response hok
  have hcode : ((sndrcv call request behind pcap).code).outcome = .ok hpavOk := by
    unfold Transmission.code
    rw [hok]
    rfl
  exact (h call behind).sent_ne_nil (hencodes call) hsize hcode

/-- A request of a fixed size that fits a frame is sent. -/
theorem sends_mtkMme {size : Nat} {α : Type} {mmtype : UInt16} {sndrcv : Sndrcv (RequestOf size) α}
    {expected : Call → Expected α}
    (h : sndrcv = fun call request =>
      exchange call (encodeMtkMme size mmtype call.staMacAddr call.macAddr request) (expected call))
    (hsize : mtkMmeHeaderSize + size ≤ ethFrameMaxPayload) (request : RequestOf size) : Sends sndrcv request := by
  subst h
  exact sends_of_sendsFrames _ (fun call behind => exchange_sendsFrames call _ _ behind)
    (fun call => encodes_mtkMme call mmtype request) hsize

/-- A block of NVRAM with its index fits a frame and is sent. -/
theorem sends_mtkVsSetNvram (request : RequestOf 1031) : Sends mtkVsSetNvramSndrcv request := by
  have hsize : mtkMmeHeaderSize + 1031 ≤ ethFrameMaxPayload := by decide
  have hsndrcv : mtkVsSetNvramSndrcv = fun call request =>
      exchange call (encodeMtkMme 1031 0xA104 call.staMacAddr call.macAddr request)
        ⟨0xA105, call.numFragments, fun _ => false, decodeMtkVsSetNvramCnf⟩ := by
    unfold mtkVsSetNvramSndrcv mmeSndrcv encodeMtkVsSetNvramReq
    rfl
  exact sends_mtkMme hsndrcv hsize request

/-- A key is sent. -/
theorem sends_cmSetKey (request : CmSetKeyReq) : Sends cmSetKeySndrcv request :=
  sends_of_sendsFrames _ (fun call behind => exchange_sendsFrames call _ _ behind)
    (fun call => encodes_mme call 0x6008 request) (by decide)

/-- An encrypted key is sent, whatever the memory around it holds. -/
theorem sends_cmSetKeyEncrypted {cipher : Cipher} (hlib : CbcWrites cipher.lib) (uninit : Nat → UInt8)
    (request : CmSetKeyReq) : Sends (cmSetKeyEncryptedSndrcv cipher uninit) request :=
  sends_of_sendsFrames _ (fun call behind => cmSetKeyEncryptedSndrcv_sendsFrames cipher uninit call request behind)
    (fun call => encodes_encrypted hlib call request) (by decide)

/-- All commands of the table but CM_AMP_MAP follow the contract. -/
theorem MmeFct.plain {fct : MmeFct} (hfct : fct ≠ .cmAmpMapReq) {s : Setting} (hlib : CbcWrites s.lib)
    {fs : LocalFs} {argv : List CString} {v : Verdict} (h : fct.command s fs argv = .ok v) : Plain v := by
  cases fct with
  | cmAmpMapReq => exact absurd rfl hfct
  | cmSetKeyReq =>
    have h : testMmeCmSetKeyReq s fs argv = .ok v := h
    unfold testMmeCmSetKeyReq at h
    simp only at h
    split at h
    · exact testMme_plain (sends_cmSetKeyEncrypted hlib s.uninit) h
    · exact testMme_plain sends_cmSetKey h
  | mtkVsSetNvramReq => exact testMme_plain sends_mtkVsSetNvram h
  | _ =>
    refine testMme_plain ?_ h
    intro request
    exact sends_mtkMme rfl (by decide) request

/-- A number that fits sixteen bits is not changed by them. -/
theorem toNat_ofInt {v : Int} (hzero : 0 ≤ v) (hlt : v < 65536) : (UInt16.ofInt v).toNat = v.toNat := by
  show (UInt16.ofNat (v % 2 ^ 16).toNat).toNat = v.toNat
  rw [UInt16.toNat_ofNat']
  omega

section FileAccess

variable {σ : Type} {uninit : List UInt8} {e : Environment σ} {cmd : FileAccessCommand} {fuel : Nat}

end FileAccess

/-! ## The channel -/

section Channel

variable {σ : Type} {m : Machine σ} {k : Nat} {ifName : CString} {fct : ChannelFct} {argv : List CString}
  {fs : LocalFs} {env : σ} {last : CommandEnd σ}

/-- A channel that could not be opened. -/
inductive NotOpened : Int → Met → Prop where
  | list : NotOpened (-1) .localError
  | name : NotOpened exitUsage .usageError
  | channel : NotOpened exitFailure .localError

/-- A channel that is not opened leaves an error of the host, or an argument that names no
interface. -/
theorem openChannel_failed {around : Surroundings} {rv : Int} {met : Met}
    (h : openChannel around ifName = .ok (.failed rv met)) : NotOpened rv met := by
  have hdump : ∀ {opening}, dumpErrorStack around opening = .ok (.failed rv met) → opening = .failed rv met := by
    intro opening hd
    unfold dumpErrorStack at hd
    split at hd
    · injection hd
    · cases hd
  unfold openChannel at h
  split at h
  · injection hdump h with hrv hmet
    rw [← hrv, ← hmet]
    exact .list
  · cases h
  · split at h
    · injection h with h
      injection h with hrv hmet
      rw [← hrv, ← hmet]
      exact .name
    · split at h
      · cases h
      · injection hdump h with hrv hmet
        rw [← hrv, ← hmet]
        exact .channel

/-- The exchanges of MMEs: what stayed without an answer was sent, and what was sent was answered
or stayed without. -/
structure Surveyed (log : List Met) : Prop where
  sent : log.any Met.unanswered = true → log.any Met.sent = true
  answered : log.any Met.sent = true → log.any Met.unanswered = true ∨ log.any Met.answered = true
  givenUp : log.any Met.givenUp = false

/-- Two surveyed logs make one. -/
theorem Surveyed.append {first second : List Met} (h : Surveyed first) (h' : Surveyed second) :
    Surveyed (first ++ second) := by
  refine ⟨?_, ?_, ?_⟩
  · intro hunanswered
    rw [List.any_append, Bool.or_eq_true] at hunanswered ⊢
    exact hunanswered.imp h.sent h'.sent
  · intro hsent
    rw [List.any_append, Bool.or_eq_true] at hsent
    rw [List.any_append, List.any_append, Bool.or_eq_true, Bool.or_eq_true]
    rcases hsent with hsent | hsent
    · exact (h.answered hsent).imp Or.inl Or.inl
    · exact (h'.answered hsent).imp Or.inr Or.inr
  · rw [List.any_append, h.givenUp, h'.givenUp]
    rfl

end Channel

/-- A host with one interface, behind which no station answers. -/
def quietMachine : Machine Unit where
  around _ :=
    { interfaces := some [⟨text "eth0", broadcast⟩]
      opens := fun _ => true
      errorStackNull := true
      setting := ⟨broadcast, quietRun, fun _ => 0, fun _ => 0, [], setKeyLib, setKeyRand⟩ }
  listed := none
  host := ⟨⟨fun env _ _ => (.received [], env)⟩, 4, []⟩
  temp := none

end Hpav
