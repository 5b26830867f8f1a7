import Moulars.FileSrv.DataCache
import Moulars.Plasma.WholeFiles

/-!
The command that decrypts files.

A key is given in hexadecimal digits, with the words in big endian as in the file of the server's
key. A file that is to be decrypted in place is decrypted in memory first.
-/

namespace Moulars.MfsTool

open Lib.Wire Lib.Text Lib.Paths Lib.Files Lib.Jobs
open Hashes Plasma FileSrv

/-- The words of a key that is stored in big endian. -/
def keyOfBytes (content : Bytes) : CryptKey := fun i => (ShaDigest.beWords content).getD i 0

def keyBytes (key : CryptKey) : Bytes :=
  (List.ofFn key).flatMap fun v => ShaDigest.beBytes 4 v.toNat

def getKey (hex : HexPermissive) : Option String → Except Fault CryptKey
  | none => .ok defaultKey
  | some keyStr => match hex.decode (encodeUtf8 keyStr.toList) with
    | .error err => .error (.error s!"Invalid hex literal: {err}")
    | .ok buffer =>
      if buffer.length = 16 then .ok (keyOfBytes buffer) else .error (.error "Invalid key length")

/-- What the tool changes: the files, and its output. -/
structure Console where
  tree : FileTree
  stdout : Bytes

/-- `decrypt_file`, with the size of the buffer of `io::copy`. -/
def decryptFile (hex : HexPermissive) (size : ℕ) (path : PathBuf) (outFile : Option PathBuf)
    (keyOpt : Option String) : Job Console Fault Unit := fun s =>
  match getKey hex keyOpt with
  | .error e => (.error e, s)
  | .ok key => match s.tree.read path with
    | .error e => (.error (ioFault e), s)
    | .ok content => match EncryptedReader.new ⟨content, 0⟩ key with
      | .error e => (.error e, s)
      | .ok stream =>
        let (bytes, result) := stream.copy size stream.rounds
        match outFile with
        | none => (result, { s with stdout := s.stdout ++ bytes })
        | some outFilename =>
          if s.tree.contains outFilename ∧ s.tree.resolve outFilename = s.tree.resolve path then
            match result with
            | .error e => (.error e, s)
            | .ok () => match s.tree.write outFilename bytes with
              | .error e => (.error (ioFault e), s)
              | .ok tree => (.ok (), { s with tree })
          else match s.tree.write outFilename bytes with
            | .error e => (.error (ioFault e), s)
            | .ok tree => (result, { s with tree })

/-! ### Keys -/

lemma length_keyBytes (key : CryptKey) : (keyBytes key).length = 16 := by
  simp [keyBytes, List.ofFn_succ, ShaDigest.beBytes]

lemma keyOfBytes_keyBytes (key : CryptKey) (more : Bytes) :
    keyOfBytes (keyBytes key ++ more) = key := by
  have hword (v : UInt32) (rest : Bytes) :
      ShaDigest.beWords (ShaDigest.beBytes 4 v.toNat ++ rest) = v :: ShaDigest.beWords rest := by
    obtain ⟨a, b, c, d, hle⟩ : ∃ a b c d, le 4 v.toNat = [a, b, c, d] := ⟨_, _, _, _, rfl⟩
    have hback : ofLe [a, b, c, d] = v.toNat := by
      rw [← hle]
      exact ofLe_le 4 _ v.toNat_lt
    rw [ShaDigest.beBytes, hle]
    show UInt32.ofNat (ofLe [a, b, c, d]) :: _ = _
    rw [hback, UInt32.ofNat_toNat]
    rfl
  funext i
  unfold keyOfBytes keyBytes
  simp only [List.ofFn_succ, List.ofFn_zero, List.flatMap_cons, List.flatMap_nil, List.append_nil,
    List.append_assoc, hword]
  revert i
  simp only [Fin.forall_fin_succ, IsEmpty.forall_iff, and_true]
  exact ⟨rfl, rfl, rfl, rfl⟩

lemma getKey_hexLower (hex : HexPermissive) (key : CryptKey) :
    getKey hex (some (hexLower (keyBytes key))) = .ok key := by
  unfold getKey
  dsimp only
  rw [hex.decode_hexLower]
  dsimp only
  rw [if_pos (length_keyBytes key)]
  have hkey := keyOfBytes_keyBytes key []
  rw [List.append_nil] at hkey
  rw [hkey]

/-! ### Decrypting -/

section Decrypting

variable {hex : HexPermissive} {size : ℕ} {path : PathBuf} {keyOpt : Option String}
  {key : CryptKey} {s : Console} {file content : Bytes} {type : EncryptionType}

lemma decryptFile_stdout (hsize : 0 < size) (hkey : getKey hex keyOpt = .ok key)
    (hread : s.tree.read path = .ok file) (hback : ReadsBack type key ⟨file, 0⟩ content) :
    decryptFile hex size path none keyOpt s =
      (.ok (), { s with stdout := s.stdout ++ content }) := by
  obtain ⟨r, hnew, -, hreads⟩ := hback
  unfold decryptFile
  rw [hkey]
  dsimp only
  rw [hread]
  dsimp only
  rw [hnew]
  dsimp only
  rw [copies_of_reads hreads hsize]

lemma decryptFile_inPlace (hsize : 0 < size) (hkey : getKey hex keyOpt = .ok key)
    (hread : s.tree.read path = .ok file) (hback : ReadsBack type key ⟨file, 0⟩ content)
    (hname : path.fileName ≠ none) :
    ∃ tree, decryptFile hex size path (some path) keyOpt s = (.ok (), { s with tree }) ∧
      tree.read path = .ok content := by
  obtain ⟨r, hnew, -, hreads⟩ := hback
  have hfind := FileTree.read_eq_ok.1 hread
  obtain ⟨q, hq, hnode⟩ := FileTree.find_eq_ok.1 hfind
  have hwrite : s.tree.write path content =
      .ok { s.tree with nodes := s.tree.nodes.insert q (.file content) } :=
    FileTree.write_eq_ok.2 ⟨q, hq, hname, by rw [hnode]; simp, rfl⟩
  have hcontains : s.tree.contains path = true := by
    rw [FileTree.contains, hfind]
    rfl
  refine ⟨_, ?_, FileTree.read_of_write hwrite⟩
  unfold decryptFile
  rw [hkey]
  dsimp only
  rw [hread]
  dsimp only
  rw [hnew]
  dsimp only
  rw [copies_of_reads hreads hsize]
  dsimp only
  rw [if_pos ⟨hcontains, rfl⟩, hwrite]

end Decrypting

end Moulars.MfsTool
