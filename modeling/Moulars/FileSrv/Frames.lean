import Moulars.FileSrv.Server
import Moulars.Lib.MessageLoop

/-!
The file server's messages on the wire.

Both ways, a message is sent in a frame that starts with the frame's own size. The server reads a
request from the start of its frame and ignores what is left of the frame; texts in requests are
in fields of a fixed number of UTF-16 units.
-/

namespace Moulars.FileSrv

open Lib.Wire Lib.Text Lib.Clients Lib.AsyncRead
open Lib.MessageLoop Net Vault

/-! ### Frames -/

def readFrame {α : Type} (p : Reader α) : AsyncReader α := do
  let msgSize ← AsyncReader.u32
  if msgSize.toNat < 4 then .fail (.error "Message size too small")
  else do
    let msgBuf ← AsyncReader.exact (msgSize.toNat - 4)
    match p.run msgBuf.1 with
    | .ok (message, _) => pure message
    | .error e => .fail e

def frame (body : Bytes) : Bytes := le 4 (4 + body.length) ++ body

lemma reads_frame {α : Type} {p : Reader α} {body : Bytes} {a : α} (h : Reads p body a)
    (pad : Bytes) (hsize : 4 + (body ++ pad).length < 2 ^ 32) :
    Reads (toReader (readFrame p)) (frame (body ++ pad)) a := by
  have hn : (UInt32.ofNat (4 + (body ++ pad).length)).toNat = 4 + (body ++ pad).length :=
    UInt32.toNat_ofNat_of_lt' hsize
  have hread := AsyncReader.reads_u32 (UInt32.ofNat (4 + (body ++ pad).length))
  rw [hn] at hread
  refine AsyncReader.reads_bind hread ?_
  rw [if_neg (by omega)]
  refine AsyncReader.reads_bind_nil (AsyncReader.reads_exact ⟨body ++ pad, by omega⟩) ?_
  dsimp only
  rw [h pad]
  exact AsyncReader.reads_pure a

lemma consumes_frame {α : Type} (p : Reader α) : Consumes (readFrame p) :=
  consumes_ask (n := 4) (by decide) _

/-! ### Requests -/

/-- The `read_fixed_utf16` macro. -/
def readFixedUtf16 (len : ℕ) : Reader String := do
  let buf ← units len
  pure (String.ofList (decodeUtf16Lossy (buf.takeWhile (· != 0))))

namespace CliToFile

def streamRead : Reader CliToFile := do
  let msgId ← Reader.u32
  if msgId = 0 then do
    let pingTime ← Reader.u32
    pure (.pingRequest pingTime)
  else if msgId = 10 then do
    let transId ← Reader.u32
    pure (.buildIdRequest transId)
  else if msgId = 20 then do
    let transId ← Reader.u32
    let manifestName ← readFixedUtf16 260
    let buildId ← Reader.u32
    pure (.manifestRequest transId manifestName buildId)
  else if msgId = 22 then do
    let transId ← Reader.u32
    let readerId ← Reader.u32
    pure (.manifestEntryAck transId readerId)
  else if msgId = 21 then do
    let transId ← Reader.u32
    let filename ← readFixedUtf16 260
    let buildId ← Reader.u32
    pure (.downloadRequest transId filename buildId)
  else if msgId = 23 then do
    let transId ← Reader.u32
    let readerId ← Reader.u32
    pure (.downloadChunkAck transId readerId)
  else Reader.fail (.error s!"Bad message ID {msgId.toNat}")

def read : AsyncReader CliToFile := readFrame streamRead

end CliToFile

/-- How a client fills a text field. -/
def fixedUtf16 (len : ℕ) (s : String) : Bytes :=
  unitBytes (encodeUtf16 s.toList ++ List.replicate (len - (encodeUtf16 s.toList).length) 0)

def FitsField (len : ℕ) (s : String) : Prop :=
  NulFree s ∧ (encodeUtf16 s.toList).length ≤ len

lemma reads_fixedUtf16 {len : ℕ} {s : String} (h : FitsField len s) :
    Reads (readFixedUtf16 len) (fixedUtf16 len s) s := by
  obtain ⟨hnul, hlen⟩ := h
  have hzero := notMem_encodeUtf16 hnul
  have hunits := reads_units
    (encodeUtf16 s.toList ++ List.replicate (len - (encodeUtf16 s.toList).length) 0)
  rw [List.length_append, List.length_replicate, Nat.add_sub_cancel' hlen] at hunits
  have htake : (encodeUtf16 s.toList ++
      List.replicate (len - (encodeUtf16 s.toList).length) 0).takeWhile (· != 0) =
        encodeUtf16 s.toList := by
    rw [List.takeWhile_append_of_pos]
    · cases len - (encodeUtf16 s.toList).length with
      | zero => simp
      | succ n => simp [List.replicate_succ]
    · intro u hu
      rw [bne_iff_ne]
      rintro rfl
      exact hzero hu
  have hread := hunits.bind_pure
    (f := fun buf => String.ofList (decodeUtf16Lossy (buf.takeWhile (· != 0))))
  rwa [htake, decodeUtf16Lossy_encodeUtf16, String.ofList_toList] at hread

namespace CliToFile

def bytes : CliToFile → Bytes
  | .pingRequest pingTime => le 4 0 ++ le 4 pingTime.toNat
  | .buildIdRequest transId => le 4 10 ++ le 4 transId.toNat
  | .manifestRequest transId manifestName buildId =>
    le 4 20 ++ (le 4 transId.toNat ++ (fixedUtf16 260 manifestName ++ le 4 buildId.toNat))
  | .downloadRequest transId filename buildId =>
    le 4 21 ++ (le 4 transId.toNat ++ (fixedUtf16 260 filename ++ le 4 buildId.toNat))
  | .manifestEntryAck transId readerId => le 4 22 ++ (le 4 transId.toNat ++ le 4 readerId.toNat)
  | .downloadChunkAck transId readerId => le 4 23 ++ (le 4 transId.toNat ++ le 4 readerId.toNat)

def Fits : CliToFile → Prop
  | .manifestRequest _ manifestName _ => FitsField 260 manifestName
  | .downloadRequest _ filename _ => FitsField 260 filename
  | _ => True

lemma reads {message : CliToFile} (h : message.Fits) : Reads streamRead message.bytes message := by
  cases message with
  | pingRequest pingTime => exact (Reads.u32 0).bind (Reads.u32 pingTime).bind_pure
  | buildIdRequest transId => exact (Reads.u32 10).bind (Reads.u32 transId).bind_pure
  | manifestRequest transId manifestName buildId =>
    exact (Reads.u32 20).bind <| (Reads.u32 transId).bind <| (reads_fixedUtf16 h).bind <|
      (Reads.u32 buildId).bind_pure
  | downloadRequest transId filename buildId =>
    exact (Reads.u32 21).bind <| (Reads.u32 transId).bind <| (reads_fixedUtf16 h).bind <|
      (Reads.u32 buildId).bind_pure
  | manifestEntryAck transId readerId =>
    exact (Reads.u32 22).bind <| (Reads.u32 transId).bind (Reads.u32 readerId).bind_pure
  | downloadChunkAck transId readerId =>
    exact (Reads.u32 23).bind <| (Reads.u32 transId).bind (Reads.u32 readerId).bind_pure

end CliToFile

/-- A request as a client sends it: a message, and what else is in its frame. -/
structure Request where
  message : CliToFile
  pad : Bytes
  fits : message.Fits
  size : 4 + (message.bytes ++ pad).length < 2 ^ 32

def Request.bytes (r : Request) : Bytes := frame (r.message.bytes ++ r.pad)

/-- **Requests are read back**, whatever else their frames hold. -/
lemma decode_requests (requests : List Request) :
    decode CliToFile.read (requests.flatMap Request.bytes) = requests.map Request.message := by
  have hdecode := decode_flatMap (p := CliToFile.read) (consumes_frame _) requests
    (fun r _ => reads_frame (CliToFile.reads r.fits) r.pad r.size) []
  rw [List.append_nil] at hdecode
  exact hdecode.trans (List.append_nil _)

/-! ### Replies -/

lemma yields_nulFree_text : Yields readUtf16zText fun s _ => NulFree s :=
  yields_unitsZ_notMem.bind fun _ _ h => Yields.pure _ (nulFree_decodeUtf16Lossy h)

lemma FileInfo.yields_nulFree (hex : HexPermissive) :
    Yields (FileInfo.streamRead hex) fun f _ => NulFree f.clientPath ∧ NulFree f.downloadPath := by
  refine yields_nulFree_text.bind fun _ _ hclient => yields_nulFree_text.bind fun _ _ hload => ?_
  refine (yields_md5Hash hex).bind fun _ _ _ => (yields_md5Hash hex).bind fun _ _ _ => ?_
  refine yields_u32.bind fun _ _ _ => yields_u32.bind fun _ _ _ => yields_u32.bind fun _ _ _ => ?_
  exact Yields.pure _ ⟨hclient, hload⟩

lemma Manifest.yields_nulFree (hex : HexPermissive) : Yields (Manifest.streamRead hex) fun m _ =>
    ∀ f ∈ m.files, NulFree f.clientPath ∧ NulFree f.downloadPath := by
  refine Yields.u32.bind fun n _ _ => Yields.u32.bind fun _ _ _ => ?_
  refine (Yields.exact _).bind fun buffer _ _ => yields_within buffer ?_
  refine (Yields.times_all (FileInfo.yields_nulFree hex) _).bind fun files _ hfiles => ?_
  refine (Yields.u16.bind fun nul _ _ => ?_ : Yields readEnd fun _ _ => True).bind
    fun _ _ _ => Yields.pure _ hfiles.2
  split
  · exact Yields.fail _ _
  · exact Yields.pure _ trivial

namespace FileToCli

def streamWrite : FileToCli → Out
  | .pingReply pingTime => Out.u32 0 ++ Out.u32 pingTime
  | .buildIdReply transId result buildId =>
    Out.u32 10 ++ (Out.u32 transId ++ (Out.i32 result ++ Out.u32 buildId))
  | .manifestReply transId result readerId manifest =>
    Out.u32 20 ++ (Out.u32 transId ++ (Out.i32 result ++ (Out.u32 readerId ++
      manifest.streamWrite)))
  | .fileDownloadReply transId result readerId totalSize fileData =>
    Out.u32 21 ++ (Out.u32 transId ++ (Out.i32 result ++ (Out.u32 readerId ++
      (Out.u32 totalSize ++ writeSizedBuffer fileData))))

def write (reply : FileToCli) : Out :=
  match reply.streamWrite with
  | .ok buffer =>
    if 4 + buffer.length < 2 ^ 32 then Out.put (frame buffer)
    else Out.fail (.error "Message too large for stream")
  | .error e => .error e

/-- How a client reads a reply. -/
def streamRead (hex : HexPermissive) : Reader FileToCli := do
  let msgId ← Reader.u32
  if msgId = 0 then do
    let pingTime ← Reader.u32
    pure (.pingReply pingTime)
  else if msgId = 10 then do
    let transId ← Reader.u32
    let result ← Reader.i32
    let buildId ← Reader.u32
    pure (.buildIdReply transId result buildId)
  else if msgId = 20 then do
    let transId ← Reader.u32
    let result ← Reader.i32
    let readerId ← Reader.u32
    let manifest ← Manifest.streamRead hex
    pure (.manifestReply transId result readerId manifest)
  else if msgId = 21 then do
    let transId ← Reader.u32
    let result ← Reader.i32
    let readerId ← Reader.u32
    let totalSize ← Reader.u32
    let fileData ← readBlob
    pure (.fileDownloadReply transId result readerId totalSize fileData)
  else Reader.fail (.error "")

def read (hex : HexPermissive) : AsyncReader FileToCli := readFrame (streamRead hex)

/-- Everything in the reply is also on the wire. -/
def Plain : FileToCli → Prop
  | .manifestReply _ _ _ manifest => manifest.sent = manifest ∧
    ∀ f ∈ manifest.files, NulFree f.clientPath ∧ NulFree f.downloadPath
  | _ => True

lemma reads (hex : HexPermissive) {reply : FileToCli} (h : reply.Plain) :
    ∀ b, reply.streamWrite = .ok b → Reads (streamRead hex) b reply := by
  have hnumber (v : UInt32) : ∀ b, Out.u32 v = .ok b → Reads Reader.u32 b v := by
    intro b hb
    obtain rfl := Out.put_eq_ok.1 hb
    exact Reads.u32 v
  have hresult (v : Int32) : ∀ b, Out.i32 v = .ok b → Reads Reader.i32 b v := by
    intro b hb
    obtain rfl := Out.put_eq_ok.1 hb
    exact Reads.i32 v
  cases reply with
  | pingReply pingTime =>
    exact Out.reads_append (hnumber 0) fun b hb => (hnumber pingTime b hb).bind_pure
  | buildIdReply transId result buildId =>
    refine Out.reads_append (hnumber 10) (Out.reads_append (hnumber transId) ?_)
    exact Out.reads_append (hresult result) fun b hb => (hnumber buildId b hb).bind_pure
  | manifestReply transId result readerId manifest =>
    refine Out.reads_append (hnumber 20) (Out.reads_append (hnumber transId) ?_)
    refine Out.reads_append (hresult result) (Out.reads_append (hnumber readerId) fun b hb => ?_)
    have hread := Manifest.reads hex h.2 b hb
    rw [h.1] at hread
    exact hread.bind_pure
  | fileDownloadReply transId result readerId totalSize fileData =>
    refine Out.reads_append (hnumber 21) (Out.reads_append (hnumber transId) ?_)
    refine Out.reads_append (hresult result) (Out.reads_append (hnumber readerId) ?_)
    refine Out.reads_append (hnumber totalSize) fun b hb => ?_
    unfold writeSizedBuffer at hb
    split at hb
    · rename_i hlen
      obtain rfl := Out.put_eq_ok.1 hb
      exact (reads_blob hlen).bind_pure
    · cases hb

lemma plain_manifestReply {hex : HexPermissive} {s r : Bytes} {manifest : Manifest}
    (h : (Manifest.streamRead hex).run s = .ok (manifest, r)) (transId readerId : UInt32)
    (result : Int32) : (manifestReply transId result readerId manifest).Plain := by
  obtain ⟨-, -, hsent⟩ := Manifest.yields_sent hex s manifest r h
  obtain ⟨-, -, hnul⟩ := Manifest.yields_nulFree hex s manifest r h
  exact ⟨hsent, hnul⟩

lemma readsBack (hex : HexPermissive) {reply : FileToCli} (h : reply.Plain) :
    ReadsBack (read hex) reply.write reply := by
  intro b hb
  unfold write at hb
  split at hb
  · rename_i buffer hbuffer
    split at hb
    · rename_i hsize
      obtain rfl := Out.put_eq_ok.1 hb
      have hframe := reads_frame (reads hex h buffer hbuffer) []
      rw [List.append_nil] at hframe
      exact hframe hsize
    · cases hb
  · cases hb

lemma consumes_read (hex : HexPermissive) : Consumes (read hex) := consumes_frame _

end FileToCli

end Moulars.FileSrv
