-- The upgrade of a connection: two parsers share one stream of bytes. What is
-- received together with the end of the response header never reaches the
-- frame parser.
import EmbeddedAudio.SendspinReconnect

namespace EmbeddedAudio.Sendspin

open Storage Ws

variable {φ : Type}

/-! ## Where the header ends -/

/-- The position after the empty line that ends the header. -/
def headerEnd : List UInt8 → Option Nat
  | [] => none
  | b :: rest =>
    if (ascii "\r\n\r\n").isPrefixOf (b :: rest) then some 4 else (headerEnd rest).map (· + 1)

theorem findHeaderEnd_eq (bytes : List UInt8) : findHeaderEnd bytes = (headerEnd bytes).isSome := by
  induction bytes with
  | nil => rfl
  | cons b rest ih =>
    unfold findHeaderEnd headerEnd
    rw [ih]
    split <;> simp [*]

theorem headerEnd_bounds {bytes : List UInt8} {n : Nat} (h : headerEnd bytes = some n) :
    4 ≤ n ∧ n ≤ bytes.length := by
  induction bytes generalizing n with
  | nil => simp [headerEnd] at h
  | cons b rest ih =>
    unfold headerEnd at h
    split at h
    · rename_i hpre
      have := (List.isPrefixOf_iff_prefix.mp hpre).length_le
      simp only [Option.some.injEq] at h
      rw [← h]
      exact ⟨Nat.le_refl 4, this⟩
    · obtain ⟨m, hm, rfl⟩ := Option.map_eq_some_iff.mp h
      have := ih hm
      simp only [List.length_cons]
      omega

/-- The header ends at the first empty line, whatever comes behind it. -/
theorem headerEnd_append {bytes : List UInt8} {n : Nat} (h : headerEnd bytes = some n)
    (more : List UInt8) : headerEnd (bytes ++ more) = some n := by
  induction bytes generalizing n with
  | nil => simp [headerEnd] at h
  | cons b rest ih =>
    unfold headerEnd at h
    rw [List.cons_append]
    unfold headerEnd
    split at h
    · rename_i hpre
      rw [if_pos, h]
      exact List.isPrefixOf_iff_prefix.mpr
        ((List.isPrefixOf_iff_prefix.mp hpre).trans (List.prefix_append (b :: rest) more))
    · rename_i hno
      obtain ⟨m, hm, rfl⟩ := Option.map_eq_some_iff.mp h
      have hbounds := headerEnd_bounds hm
      rw [if_neg, ih hm]
      · rfl
      · intro hpre
        -- `rest` is long enough to hold the empty line, so it would begin `b :: rest` too
        refine hno (List.isPrefixOf_iff_prefix.mpr ?_)
        refine List.prefix_of_prefix_length_le (List.isPrefixOf_iff_prefix.mp hpre)
          (List.prefix_append (b :: rest) more) ?_
        rw [show (ascii "\r\n\r\n").length = 4 from rfl, List.length_cons]
        omega

/-- The bytes of a connection that come behind the header. -/
def frameBytes (bytes : List UInt8) : List UInt8 :=
  match headerEnd bytes with
  | none => []
  | some n => bytes.drop n

/-! ## Segmentation -/

/-- The receive call that completed the header gave no byte behind it. -/
def HeaderAlone (events : List Event) : Prop :=
  ∀ n, headerEnd (upgradeBytes events) = some n → n = (upgradeBytes events).length

/-- Every byte behind the header came to the receiver, and the client was given the messages
in these bytes. -/
def Segmented (events : List Event) : Prop :=
  received events = frameBytes (upgradeBytes events ++ received events) ∧
    FollowsBytes events (frameBytes (upgradeBytes events ++ received events))

theorem frameBytes_append {header : List UInt8} {n : Nat} (h : headerEnd header = some n)
    (bytes : List UInt8) : frameBytes (header ++ bytes) = header.drop n ++ bytes := by
  unfold frameBytes
  rw [headerEnd_append h]
  exact List.drop_append_of_le_length (headerEnd_bounds h).2

/-- The messages of a connection are those in the bytes behind the header, if and only if the
header came without any of these bytes. -/
theorem segmented_iff {env : Env φ} {config : Config} {callbacks : Callbacks} (before : List Call)
    {events : List Event} (hidle : Idle (afterCalls env (clientInit env config callbacks) before).rx)
    (h : NewConnection env (afterCalls env (clientInit env config callbacks) before) events) :
    Segmented events ↔ HeaderAlone events := by
  obtain ⟨c, hf⟩ := followed_newConnection env (buffers_reached env config callbacks before) hidle h
  have hbytes : received events = frameBytes (upgradeBytes events ++ received events) ↔
      HeaderAlone events := by
    rcases he : headerEnd (upgradeBytes events) with _ | n
    · -- before the header ends nothing is received
      have hnone : received events = [] := by
        by_contra hne
        have hend := hf.upgrading.ended (.inr hne)
        rw [findHeaderEnd_eq, he] at hend
        cases hend
      rw [hnone, List.append_nil]
      simp [frameBytes, HeaderAlone, he]
    · have hbounds := headerEnd_bounds he
      rw [frameBytes_append he]
      simp only [HeaderAlone, he, Option.some.injEq, forall_eq']
      constructor
      · intro heq
        have hlen := congrArg List.length heq
        rw [List.length_append, List.length_drop] at hlen
        omega
      · intro heq
        rw [List.drop_of_length_le (by omega), List.nil_append]
  refine ⟨fun hs => hbytes.mp hs.1, fun hh => ?_⟩
  have heq := hbytes.mpr hh
  exact ⟨heq, heq ▸ hf.tracks.follows⟩

theorem segmented_iff_pong :
    Segmented (lastEvents (reached [dial, receive response, receive pong])) ↔
      HeaderAlone (lastEvents (reached [dial, receive response, receive pong])) :=
  @segmented_iff Unit plainEnv plainConfig allCallbacks [] _ ⟨rfl, rfl, rfl⟩ newConnection_pong

/-- The response and the first frame in one receive call: the frame is lost. In two receive
calls it gives a message. -/
theorem joinedFrame_lost :
    ∃ events apart : List Event,
      NewConnection plainEnv (reached []) events ∧ NewConnection plainEnv (reached []) apart ∧
      upgradeBytes events ++ received events = upgradeBytes apart ++ received apart ∧
      ¬ SameMessages (dispatched events) (dispatched apart) ∧ ¬ Segmented events := by
  refine ⟨lastEvents (reached [dial, receive (response ++ pong)]),
    lastEvents (reached [dial, receive response, receive pong]),
    ⟨0x7F000001, 8927, EAF_OK, [receive (response ++ pong)], by decide +kernel, by decide +kernel,
      by decide +kernel⟩, newConnection_pong, by decide +kernel, ?_, fun hs => ?_⟩
  · unfold SameMessages EndsRefused
    decide +kernel
  · exact absurd hs.1 (by decide +kernel)

end EmbeddedAudio.Sendspin
