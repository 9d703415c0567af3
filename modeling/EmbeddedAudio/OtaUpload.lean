-- The firmware upload of the diagnostics server (diagnostics.c, ota_mcuboot.c): a request that
-- comes in pieces, an image that is written while it comes, and the flag for the reboot.
import EmbeddedAudio.FirstMatch
import EmbeddedAudio.Results
import Mathlib.Data.List.TakeWhile

namespace EmbeddedAudio.Ota

open FirstMatch

/-! ## Text -/

/-- The C string in a buffer: what stands before its first NUL. -/
def cString (bytes : List UInt8) : List UInt8 := bytes.takeWhile fun b => b != 0

def lower (b : UInt8) : UInt8 := if 0x41 ≤ b ∧ b ≤ 0x5a then b + 0x20 else b

/-- `isspace`. -/
def isSpace (b : UInt8) : Bool := b == 0x20 || (0x09 ≤ b && b ≤ 0x0d)

/-- `isdigit`. -/
def isDigit (b : UInt8) : Bool := 0x30 ≤ b && b ≤ 0x39

abbrev ULONG_MAX : Nat := 4294967295

/-- The number of a digit sequence. -/
def digitsValue (digits : List UInt8) : Nat :=
  digits.foldl (fun value b => value * 10 + (b.toNat - 0x30)) 0

/-- What `strtoul` makes of the digits behind a sign. -/
def strtoulDigits (negative : Bool) (text : List UInt8) : Nat :=
  let value := digitsValue (text.takeWhile isDigit)
  if ULONG_MAX < value then ULONG_MAX
  else if negative then (ULONG_MAX + 1 - value) % (ULONG_MAX + 1) else value

/-- `strtoul` for base 10 and an `unsigned long` of 32 bits. -/
def strtoul (text : List UInt8) : Nat :=
  match text.dropWhile isSpace with
  | [] => 0
  | c :: rest =>
    if c = 0x2d then strtoulDigits true rest
    else if c = 0x2b then strtoulDigits false rest
    else strtoulDigits false (c :: rest)

/-- `header_has_prefix`, of the string at `line`. -/
def headerHasPrefix (line pattern : List UInt8) : Bool :=
  startsWith lower (pattern.map lower) line

/-- `find_content_length`. -/
def findContentLength (request : List UInt8) : Option Nat :=
  match firstMatch (fun line => headerHasPrefix line (ascii "\nContent-Length:")) request with
  | none => none
  | some i =>
    let value := (request.drop (i + (ascii "\nContent-Length:").length)).dropWhile (· == 0x20)
    let length := strtoul value
    if 0 < length then some length else none

/-- `strstr(request, "\r\n\r\n")`. -/
def findHeaderEnd (request : List UInt8) : Option Nat :=
  firstMatch (startsWith id (ascii "\r\n\r\n")) request

/-! ## The device -/

/-- A call of the flash and of the boot loader. -/
inductive FlashCall where
  | init
  | write (data : List UInt8)
  | flush
  | requestUpgrade
  deriving DecidableEq, Repr

/-- The flash driver and the boot loader, with whatever state is behind them: whether a call is
done, for the driver and for the boot loader alike. -/
structure Flash (φ : Type) where
  call : φ → FlashCall → Bool × φ

/-- `calls` has each call with its answer; `reboot` is `ota_reboot_flag`. -/
structure Device (φ : Type) where
  flash : φ
  calls : List (FlashCall × Bool)
  reboot : Bool

variable {φ : Type}

def Device.call (lib : Flash φ) (device : Device φ) (call : FlashCall) : Bool × Device φ :=
  let answer := lib.call device.flash call
  (answer.1, { device with flash := answer.2, calls := device.calls ++ [(call, answer.1)] })

/-! ## The connection -/

/-- A turn of a receive loop: the milliseconds since the loop for the request began, and how many
bytes the receive call has. It has none when it fails or has waited too long. -/
structure Arrival where
  time : Nat
  bytes : Nat
  deriving DecidableEq, Repr

/-- What a client sends, and how it comes. -/
structure Socket where
  stream : List UInt8
  arrivals : List Arrival

/-- What a receive call for `want` bytes gives. -/
def Arrival.gives (arrival : Arrival) (stream : List UInt8) (want : Nat) : List UInt8 :=
  stream.take (min arrival.bytes want)

/-- `respond`. -/
structure Reply where
  status : String
  body : String
  deriving DecidableEq, Repr

/-- The header that `respond` writes into a buffer of 128 bytes. -/
def Reply.header (reply : Reply) : List UInt8 :=
  ascii "HTTP/1.0 " ++ ascii reply.status ++
    ascii "\r\nContent-Type: text/plain\r\nContent-Length: " ++
    ascii (toString (ascii reply.body).length) ++ ascii "\r\nConnection: close\r\n\r\n"

abbrev lengthRequired : Reply := ⟨"411 Length Required", "missing Content-Length\n"⟩
abbrev badRequest : Reply := ⟨"400 Bad Request", "bad request\n"⟩
abbrev flashInitFailed : Reply := ⟨"500 Internal Error", "flash init failed\n"⟩
abbrev flashWriteFailed : Reply := ⟨"500 Internal Error", "flash write failed\n"⟩
abbrev shortRead : Reply := ⟨"500 Internal Error", "short read\n"⟩
abbrev flashFlushFailed : Reply := ⟨"500 Internal Error", "flash flush failed\n"⟩
abbrev upgradeRequestFailed : Reply := ⟨"500 Internal Error", "upgrade request failed\n"⟩
abbrev rebooting : Reply := ⟨"200 OK", "ok, rebooting\n"⟩

/-! ## The upload -/

abbrev OTA_CHUNK : Nat := 1024

/-- The loop of `ota_handle_request` over the rest of the image. -/
def receiveImage (lib : Flash φ) (contentLength : Nat) :
    List Arrival → List UInt8 → Nat → Device φ → Option Reply × Device φ
  | [], _, received, device =>
    if received < contentLength then (some shortRead, device) else (none, device)
  | arrival :: arrivals, stream, received, device =>
    if received < contentLength then
      let buffer := arrival.gives stream (min (contentLength - received) OTA_CHUNK)
      if buffer.length = 0 then (some shortRead, device)
      else
        let (done, device) := device.call lib (.write buffer)
        if !done then (some flashWriteFailed, device)
        else
          receiveImage lib contentLength arrivals (stream.drop buffer.length)
            (received + buffer.length) device
    else (none, device)

/-- The end of `ota_handle_request`, with the whole image written. -/
def finishImage (lib : Flash φ) (device : Device φ) : Reply × Device φ :=
  let (flushed, device) := device.call lib .flush
  if !flushed then (flashFlushFailed, device)
  else
    let (requested, device) := device.call lib .requestUpgrade
    if !requested then (upgradeRequestFailed, device)
    else (rebooting, { device with reboot := true })

/-- The part of `ota_handle_request` behind the parsing: `buffered` are the bytes of the image
that came with the request. -/
def writeImage (lib : Flash φ) (contentLength : Nat) (buffered : List UInt8) (socket : Socket)
    (device : Device φ) : Reply × Device φ :=
  let (ready, device) := device.call lib .init
  if !ready then (flashInitFailed, device)
  else
    let (written, device) :=
      if buffered.length = 0 then (true, device) else device.call lib (.write buffered)
    if !written then (flashWriteFailed, device)
    else
      match receiveImage lib contentLength socket.arrivals socket.stream buffered.length device with
      | (some reply, device) => (reply, device)
      | (none, device) => finishImage lib device

/-- `ota_handle_request`, of the bytes that were read so far. -/
def otaHandleRequest (lib : Flash φ) (request : List UInt8) (socket : Socket)
    (device : Device φ) : Reply × Device φ :=
  match findContentLength (cString request) with
  | none => (lengthRequired, device)
  | some contentLength =>
    match findHeaderEnd (cString request) with
    | none => (badRequest, device)
    | some headerEnd =>
      writeImage lib contentLength ((request.drop (headerEnd + 4)).take contentLength) socket device

/-! ## The server -/

abbrev REQUEST_BYTES : Nat := 1024

/-- The milliseconds that `serve` takes for a request. -/
abbrev HEADER_MS : Nat := 500

/-- The receive loop of `serve`, with what it has read. There is nothing when a receive call
fails. -/
def readRequest : List Arrival → List UInt8 → List UInt8 → Option (List UInt8 × Socket)
  | arrivals, stream, request =>
    if request.length < REQUEST_BYTES - 1 then
      match arrivals with
      | [] => none
      | arrival :: arrivals =>
        if HEADER_MS ≤ arrival.time then some (request, ⟨stream, arrival :: arrivals⟩)
        else
          let got := arrival.gives stream (REQUEST_BYTES - 1 - request.length)
          if got.length = 0 then none
          else if (findHeaderEnd (cString (request ++ got))).isSome then
            some (request ++ got, ⟨stream.drop got.length, arrivals⟩)
          else readRequest arrivals (stream.drop got.length) (request ++ got)
    else some (request, ⟨stream, arrivals⟩)

/-- What `serve` answers. The texts of the pages do not matter here. -/
inductive Answer where
  | dropped
  | upload (reply : Reply)
  | logs
  | page
  | notFound
  deriving DecidableEq, Repr

/-- `serve`. `available` is `ota_available`: whether the image was built with MCUboot. -/
def serve (lib : Flash φ) (available : Bool) (socket : Socket) (device : Device φ) :
    Answer × Device φ :=
  match readRequest socket.arrivals socket.stream [] with
  | none => (.dropped, device)
  | some (request, rest) =>
    let text := cString request
    if (findHeaderEnd text).isNone then (.dropped, device)
    else if available && startsWith id (ascii "POST /ota ") text then
      let (reply, device) := otaHandleRequest lib request rest device
      (.upload reply, device)
    else if startsWith id (ascii "GET /logs HTTP/1.") text then (.logs, device)
    else if startsWith id (ascii "GET / HTTP/1.") text then (.page, device)
    else (.notFound, device)

/-- `run`: one client after the other. -/
def serveAll (lib : Flash φ) (available : Bool) : List Socket → Device φ → List Answer × Device φ
  | [], device => ([], device)
  | socket :: sockets, device =>
    let (answer, device) := serve lib available socket device
    let (answers, device) := serveAll lib available sockets device
    (answer :: answers, device)

/-! ## The text of a request -/

theorem window_headerEnd : Window (startsWith id (ascii "\r\n\r\n")) 4 :=
  window_startsWith id (ascii "\r\n\r\n")

theorem window_contentLength :
    Window (fun line => headerHasPrefix line (ascii "\nContent-Length:")) 16 :=
  window_startsWith lower ((ascii "\nContent-Length:").map lower)

theorem cString_leads (bytes : List UInt8) : cString bytes <+: bytes :=
  List.takeWhile_prefix _

theorem cString_append {header : List UInt8} (h : ∀ b ∈ header, b ≠ 0) (seen : List UInt8) :
    cString (header ++ seen) = header ++ cString seen := by
  unfold cString
  apply List.takeWhile_append_of_pos
  intro b hb
  simpa using h b hb

theorem cString_self {header : List UInt8} (h : ∀ b ∈ header, b ≠ 0) : cString header = header := by
  have happend := cString_append h []
  rwa [List.append_nil, show cString [] = [] from rfl, List.append_nil] at happend

/-- Digits that end before the text does. -/
theorem strtoulDigits_append {negative : Bool} {text : List UInt8} (more : List UInt8)
    (hend : ∃ b ∈ text, isDigit b = false) :
    strtoulDigits negative (text ++ more) = strtoulDigits negative text := by
  have htake : (text ++ more).takeWhile isDigit = text.takeWhile isDigit := by
    rw [List.takeWhile_append, if_neg]
    intro hlength
    obtain ⟨b, hb, hdigit⟩ := hend
    rw [← (List.takeWhile_prefix isDigit).eq_of_length hlength] at hb
    have hyes := List.mem_takeWhile_imp hb
    rw [hdigit] at hyes
    exact Bool.noConfusion hyes
  unfold strtoulDigits
  rw [htake]

theorem strtoul_append {text : List UInt8} (hpos : 0 < strtoul text) (more : List UInt8)
    {last : UInt8} (hlast : [last] <:+ text) (hdigit : isDigit last = false) :
    strtoul (text ++ more) = strtoul text := by
  -- The last byte ends every sequence of digits in the text.
  have hend : ∀ part, part <:+ text → part ≠ [] → ∃ b ∈ part, isDigit b = false := by
    intro part hpart hne
    refine ⟨last, ?_, hdigit⟩
    apply (List.suffix_of_suffix_length_le hlast hpart ?_).subset List.mem_cons_self
    exact List.length_pos_iff.mpr hne
  unfold strtoul at hpos ⊢
  cases htext : text.dropWhile isSpace with
  | nil =>
    rw [htext] at hpos
    exact absurd hpos (by decide)
  | cons c rest =>
    have hpart : c :: rest <:+ text := htext ▸ List.dropWhile_suffix isSpace
    have hdrop : (text ++ more).dropWhile isSpace = c :: (rest ++ more) := by
      rw [List.dropWhile_append, htext]
      rfl
    rw [htext] at hpos
    rw [hdrop]
    dsimp only at hpos ⊢
    have hrest : ∀ negative, 0 < strtoulDigits negative rest →
        strtoulDigits negative (rest ++ more) = strtoulDigits negative rest := by
      intro negative hvalue
      apply strtoulDigits_append
      apply hend rest ((List.suffix_cons c rest).trans hpart)
      rintro rfl
      cases negative <;> exact absurd hvalue (by decide)
    split
    · rename_i hminus
      rw [if_pos hminus] at hpos
      exact hrest true hpos
    · rename_i hminus
      rw [if_neg hminus] at hpos
      split
      · rename_i hplus
        rw [if_pos hplus] at hpos
        exact hrest false hpos
      · rw [← List.cons_append]
        exact strtoulDigits_append more (hend _ hpart (List.cons_ne_nil _ _))

/-- A length that the header declares is not changed by what comes behind the header. -/
theorem findContentLength_append {header : List UInt8} {n : Nat}
    (h : findContentLength header = some n) (hline : [0x0a] <:+ header) (more : List UInt8) :
    findContentLength (header ++ more) = some n := by
  unfold findContentLength at h ⊢
  cases hmatch : firstMatch (fun line => headerHasPrefix line (ascii "\nContent-Length:")) header with
  | none =>
    rw [hmatch] at h
    exact absurd h.symm (Option.some_ne_none _)
  | some i =>
    rw [hmatch] at h
    rw [firstMatch_append window_contentLength hmatch more]
    have hfits := firstMatch_fits window_contentLength hmatch
    have hsixteen : (ascii "\nContent-Length:").length = 16 := rfl
    dsimp only at h ⊢
    rw [hsixteen] at h ⊢
    split at h
    · rename_i hpos
      rw [List.drop_append_of_le_length hfits]
      set value := header.drop (i + 16) with hvalue
      have hdrop : (value ++ more).dropWhile (· == 0x20) = value.dropWhile (· == 0x20) ++ more := by
        rw [List.dropWhile_append, if_neg]
        intro hempty
        rw [List.isEmpty_iff.mp hempty] at hpos
        exact absurd hpos (by decide)
      have hlast : [0x0a] <:+ value.dropWhile (· == 0x20) := by
        refine List.suffix_of_suffix_length_le hline
          ((List.dropWhile_suffix _).trans (List.drop_suffix _ _)) ?_
        apply List.length_pos_iff.mpr
        intro hnil
        rw [hnil] at hpos
        exact absurd hpos (by decide)
      rw [hdrop, strtoul_append hpos more hlast (by decide), if_pos hpos]
      exact h
    · exact absurd h.symm (Option.some_ne_none _)

/-! ## The replies -/

abbrev HEADER_BYTES : Nat := 128

/-- The replies of `ota_handle_request`. -/
def replies : List Reply := [lengthRequired, badRequest, flashInitFailed, flashWriteFailed, shortRead,
  flashFlushFailed, upgradeRequestFailed, rebooting]

theorem header_fits_of_mem : ∀ reply ∈ replies, reply.header.length < HEADER_BYTES := by
  decide +kernel

theorem receiveImage_reply (lib : Flash φ) (contentLength : Nat) (arrivals : List Arrival) :
    ∀ {stream : List UInt8} {received : Nat} {device : Device φ} {reply : Reply},
      (receiveImage lib contentLength arrivals stream received device).1 = some reply →
      reply = shortRead ∨ reply = flashWriteFailed := by
  induction arrivals with
  | nil =>
    intro stream received device reply h
    unfold receiveImage at h
    split at h
    · exact .inl (Option.some.inj h).symm
    · exact absurd h.symm (Option.some_ne_none _)
  | cons arrival arrivals ih =>
    intro stream received device reply h
    unfold receiveImage at h
    dsimp only at h
    split at h
    · split at h
      · exact .inl (Option.some.inj h).symm
      split at h
      · exact .inr (Option.some.inj h).symm
      · exact ih h
    · exact absurd h.symm (Option.some_ne_none _)

theorem finishImage_reply (lib : Flash φ) (device : Device φ) :
    (finishImage lib device).1 ∈ replies := by
  unfold finishImage
  dsimp only
  split
  · simp [replies]
  · split <;> simp [replies]

theorem writeImage_reply (lib : Flash φ) (contentLength : Nat) (buffered : List UInt8)
    (socket : Socket) (device : Device φ) :
    (writeImage lib contentLength buffered socket device).1 ∈ replies := by
  unfold writeImage
  dsimp only
  generalize (if buffered.length = 0 then (true, (device.call lib .init).2)
    else (device.call lib .init).2.call lib (.write buffered)) = first
  split
  · simp [replies]
  split
  · simp [replies]
  split
  · rename_i hreceived
    rcases receiveImage_reply lib _ _ (Prod.ext_iff.mp hreceived).1 with rfl | rfl <;>
      simp [replies]
  · exact finishImage_reply ..

/-- The header of each reply fits the buffer of `respond`, with its NUL. -/
theorem respond_fits (lib : Flash φ) (request : List UInt8) (socket : Socket) (device : Device φ) :
    (otaHandleRequest lib request socket device).1.header.length < HEADER_BYTES := by
  apply header_fits_of_mem
  unfold otaHandleRequest
  split
  · simp [replies]
  split
  · simp [replies]
  · exact writeImage_reply ..

end EmbeddedAudio.Ota
