/- SocketChat/TestCode/FileTransfer/Request
   digest: Which requests the server's sscanf reads back, and which it reads inside its arrays. -/

import SocketChat.Lib.Words
import SocketChat.TestCode.FileTransfer.Send

set_option autoImplicit false
set_option relaxedAutoImplicit false

namespace SocketChat.TestCode.FileTransfer.Request

open SocketChat.Lib.CString
open SocketChat.Lib.Words
open SocketChat.TestCode.FileTransfer.Model
open SocketChat.TestCode.FileTransfer.Send

/-- `sscanf(buffer, "%s %s", command, fileName)`: the strings that it stores. -/
def sscanf (buffer : List Byte) : Option (List Byte) × Option (List Byte) :=
  let (command, rest) := scanField (cstr buffer)
  if command.isEmpty then (none, none) else
  let (fileName, _) := scanField rest
  (some command, if fileName.isEmpty then none else some fileName)

private theorem scanRequest_eq (stack : List Byte × List Byte) (buffer : List Byte) :
    scanRequest stack buffer =
      ((sscanf buffer).1.getD stack.1, (sscanf buffer).2.getD stack.2) := by
  unfold scanRequest sscanf
  dsimp only
  split
  · rfl
  · split
    · rfl
    · rfl

private theorem sscanf_eq_words (buffer : List Byte) :
    sscanf buffer = ((words (cstr buffer))[0]?, (words (cstr buffer))[1]?) := by
  unfold sscanf
  dsimp only
  rw [words_eq_scanField (cstr buffer)]
  by_cases nothing : (scanField (cstr buffer)).1 = []
  · rw [if_pos nothing, if_pos (List.isEmpty_iff.mpr nothing)]
    rfl
  · rw [if_neg nothing, if_neg fun empty => nothing (List.isEmpty_iff.mp empty)]
    rw [words_eq_scanField (scanField (cstr buffer)).2]
    by_cases alone : (scanField (scanField (cstr buffer)).2).1 = []
    · rw [if_pos alone, if_pos (List.isEmpty_iff.mpr alone)]
      rfl
    · rw [if_neg alone, if_neg fun empty => alone (List.isEmpty_iff.mp empty)]
      rfl

section RoundTrip

variable {command filePath : List Byte}

private theorem words_request (choice : command = SEND ∨ command = RECV) (nul_free : 0 ∉ filePath)
    (short : (basename filePath).length ≤ 255) :
    words (cstr (request command filePath ++ [0])) = command :: words (basename filePath) := by
  have plain : 0 ∉ command := by rcases choice with rfl | rfl <;> decide
  have word : command.length = 4 := by rcases choice with rfl | rfl <;> rfl
  have solid : ∀ b ∈ command, isspace b = false := by
    rcases choice with rfl | rfl <;> exact solid_of_all rfl
  have some_command : command ≠ [] := by
    rintro rfl
    cases word
  have no_nul : 0 ∉ command ++ 32 :: basename filePath := by
    simp [plain, basename_nul_free nul_free]
  rw [request_eq nul_free short (cstr_of_nul_free plain) word, cstr_snoc_zero,
    cstr_of_nul_free no_nul, words_append_space (by decide), words_of_solid solid some_command]
  rfl

private theorem sscanf_request_iff (choice : command = SEND ∨ command = RECV)
    (nul_free : 0 ∉ filePath) (short : (basename filePath).length ≤ 255) :
    sscanf (request command filePath ++ [0]) = (some command, some (basename filePath)) ↔
      ∀ b ∈ basename filePath, isspace b = false := by
  rw [sscanf_eq_words, words_request choice nul_free short, Prod.mk.injEq]
  have second : (command :: words (basename filePath))[1]? = (words (basename filePath))[0]? := rfl
  rw [second, getElem?_words_eq_self]
  constructor
  · rintro ⟨_, _, solid⟩
    exact solid
  · intro solid
    exact ⟨rfl, basename_ne_nil filePath, solid⟩

/-- The server reads back the command and the name, whatever its arrays held before, exactly
when the base name has no whitespace in it. -/
theorem request_round_trip_iff (choice : command = SEND ∨ command = RECV)
    (nul_free : 0 ∉ filePath) (short : (basename filePath).length ≤ 255) :
    (sscanf (request command filePath ++ [0]) = (some command, some (basename filePath)) ↔
        ∀ b ∈ basename filePath, isspace b = false) ∧
      ((∀ stack, scanRequest stack (request command filePath ++ [0]) =
          (command, basename filePath)) ↔
        ∀ b ∈ basename filePath, isspace b = false) := by
  have exact_when := sscanf_request_iff choice nul_free short
  refine ⟨exact_when, ?_⟩
  rw [← exact_when]
  constructor
  · intro whatever
    have fields := whatever ([], [])
    rw [scanRequest_eq, Prod.mk.injEq] at fields
    obtain ⟨first, second⟩ := fields
    have assigned : ∀ {field : Option (List Byte)} {value : List Byte}, value ≠ [] →
        field.getD [] = value → field = some value := by
      intro field value something same
      cases field with
      | none => exact absurd same.symm something
      | some stored => exact congrArg some same
    have some_command : command ≠ [] := by rcases choice with rfl | rfl <;> decide
    exact Prod.ext (assigned some_command first) (assigned (basename_ne_nil filePath) second)
  · intro decoded stack
    rw [scanRequest_eq, decoded]
    rfl

theorem request_round_trip_path :
    (sscanf (request SEND (lit ['a', '/', 'f']) ++ [0]) = (some SEND, some (lit ['f'])) ↔
        ∀ b ∈ lit ['f'], isspace b = false) ∧
      ((∀ stack, scanRequest stack (request SEND (lit ['a', '/', 'f']) ++ [0]) =
          (SEND, lit ['f'])) ↔ ∀ b ∈ lit ['f'], isspace b = false) :=
  @request_round_trip_iff SEND (lit ['a', '/', 'f']) (Or.inl rfl) (by decide) (by decide)

/-- A name with a blank in it is cut off there. -/
theorem name_cut_at_blank : ¬ ∀ command filePath, command = SEND ∨ command = RECV →
    0 ∉ filePath → (basename filePath).length ≤ 255 →
    sscanf (request command filePath ++ [0]) = (some command, some (basename filePath)) := by
  intro claim
  have decoded := claim SEND (lit ['m', 'y', ' ', 'f']) (Or.inl rfl) (by decide) (by decide)
  have stored : sscanf (request SEND (lit ['m', 'y', ' ', 'f']) ++ [0]) =
      (some SEND, some (lit ['m', 'y'])) := by decide +kernel
  rw [stored] at decoded
  exact absurd decoded (by decide +kernel)

end RoundTrip

section Safety

inductive Field
  | command
  | fileName
deriving DecidableEq

def Field.size : Field → ℕ
  | command => 10
  | fileName => 256

/-- A character is stored in an array, or the array is read as a string. -/
inductive Access
  | store (field : Field) (i : ℕ)
  | read (field : Field)
deriving DecidableEq

/-- `%s` stores the characters of the field and a NUL behind them. -/
def storeField (field : Field) (text : List Byte) : List Access :=
  (List.range (text.length + 1)).map (.store field)

def sscanfAccesses (buffer : List Byte) : List Access :=
  (sscanf buffer).1.toList.flatMap (storeField .command) ++
    (sscanf buffer).2.toList.flatMap (storeField .fileName)

/-- What follows once the user has accepted and the client has confirmed: the command is
compared, and the file opened. -/
def transferReads (command : List Byte) : List Access :=
  if strEq command SEND then [.read .command, .read .fileName]
  else if strEq command RECV then [.read .command, .read .command, .read .fileName]
  else [.read .command, .read .command]

/-- The accesses of `HandleTCPClient` to the two arrays, from the request on; `confirmation` is
what its second `recv` stores. -/
def accesses (stdin : List Byte) (stack : List Byte × List Byte)
    (request confirmation : List Byte) : List Access :=
  let buffer := request ++ [0]
  sscanfAccesses buffer ++ .read .command :: .read .fileName ::
    match prompt stdin with
    | none => []
    | some (response, _) =>
        if accepts response && strEq (confirmation ++ [0]) OK then
          transferReads (scanRequest stack buffer).1
        else []

def Access.Valid (before : List Access) : Access → Prop
  | .store field i => i < field.size
  | .read field => ∃ i, .store field i ∈ before

def Safe (trace : List Access) : Prop :=
  ∀ before x after, trace = before ++ x :: after → x.Valid before

private theorem mem_storeField {field : Field} {text : List Byte} {x : Access} :
    x ∈ storeField field text ↔ ∃ i, i ≤ text.length ∧ x = .store field i := by
  rw [storeField, List.mem_map]
  constructor
  · rintro ⟨i, inside, rfl⟩
    exact ⟨i, Nat.le_of_lt_succ (List.mem_range.mp inside), rfl⟩
  · rintro ⟨i, fits, rfl⟩
    exact ⟨i, List.mem_range.mpr (Nat.lt_succ_of_le fits), rfl⟩

def stored (buffer : List Byte) : Field → Option (List Byte)
  | .command => (sscanf buffer).1
  | .fileName => (sscanf buffer).2

private theorem mem_sscanfAccesses {buffer : List Byte} {x : Access} :
    x ∈ sscanfAccesses buffer ↔
      ∃ field text i, stored buffer field = some text ∧ i ≤ text.length ∧ x = .store field i := by
  rw [sscanfAccesses, List.mem_append, List.mem_flatMap, List.mem_flatMap]
  constructor
  · rintro (⟨text, kept, inside⟩ | ⟨text, kept, inside⟩)
    · obtain ⟨i, fits, same⟩ := mem_storeField.mp inside
      exact ⟨.command, text, i, Option.mem_toList.mp kept, fits, same⟩
    · obtain ⟨i, fits, same⟩ := mem_storeField.mp inside
      exact ⟨.fileName, text, i, Option.mem_toList.mp kept, fits, same⟩
  · rintro ⟨field, text, i, kept, fits, same⟩
    have inside : x ∈ storeField field text := mem_storeField.mpr ⟨i, fits, same⟩
    cases field with
    | command => exact .inl ⟨text, Option.mem_toList.mpr kept, inside⟩
    | fileName => exact .inr ⟨text, Option.mem_toList.mpr kept, inside⟩

/-- Where stores that are inside come first and assign all that is read later, a trace is
safe, and nowhere else. -/
theorem safe_append_iff {stores reads : List Access}
    (only_stores : ∀ x ∈ stores, ∃ field i, x = .store field i)
    (only_reads : ∀ x ∈ reads, ∃ field, x = .read field) :
    Safe (stores ++ reads) ↔
      (∀ field i, .store field i ∈ stores → i < field.size) ∧
        ∀ field, .read field ∈ reads → ∃ i, .store field i ∈ stores := by
  constructor
  · intro safe
    constructor
    · intro field i inside
      obtain ⟨before, after, split⟩ := List.append_of_mem inside
      refine safe before (.store field i) (after ++ reads) ?_
      rw [split, List.append_assoc]
      rfl
    · intro field inside
      obtain ⟨before, after, split⟩ := List.append_of_mem inside
      obtain ⟨i, assigned⟩ : ∃ i, .store field i ∈ stores ++ before := by
        refine safe (stores ++ before) (.read field) after ?_
        rw [split, List.append_assoc]
      rcases List.mem_append.mp assigned with there | later
      · exact ⟨i, there⟩
      · obtain ⟨_, same⟩ := only_reads _ (split ▸ List.mem_append_left _ later)
        cases same
  · rintro ⟨inside, assigned⟩ before x after split
    have among : x ∈ stores ++ reads := split ▸ List.mem_append_right _ List.mem_cons_self
    cases x with
    | store field i =>
      rcases List.mem_append.mp among with there | later
      · exact inside field i there
      · obtain ⟨_, same⟩ := only_reads _ later
        cases same
    | read field =>
      have later : .read field ∈ reads := by
        rcases List.mem_append.mp among with there | later
        · obtain ⟨_, _, same⟩ := only_stores _ there
          cases same
        · exact later
      obtain ⟨i, there⟩ := assigned field later
      refine ⟨i, ?_⟩
      rcases List.append_eq_append_iff.mp split with ⟨more, rfl, _⟩ | ⟨more, whole, rest⟩
      · exact List.mem_append_left _ there
      · cases more with
        | nil => rwa [whole, List.append_nil] at there
        | cons y more =>
          obtain ⟨rfl, _⟩ := List.cons.inj rest
          obtain ⟨_, _, same⟩ := only_stores (.read field)
            (whole ▸ List.mem_append_right _ List.mem_cons_self)
          cases same

private theorem only_reads_transfer (command : List Byte) :
    ∀ x ∈ transferReads command, ∃ field, x = .read field := by
  intro x inside
  unfold transferReads at inside
  split at inside
  · simp only [List.mem_cons, List.not_mem_nil, or_false] at inside
    rcases inside with rfl | rfl
    · exact ⟨.command, rfl⟩
    · exact ⟨.fileName, rfl⟩
  · split at inside
    · simp only [List.mem_cons, List.not_mem_nil, or_false] at inside
      rcases inside with rfl | rfl | rfl
      · exact ⟨.command, rfl⟩
      · exact ⟨.command, rfl⟩
      · exact ⟨.fileName, rfl⟩
    · simp only [List.mem_cons, List.not_mem_nil, or_false, or_self] at inside
      exact ⟨.command, inside⟩

private theorem safe_accesses_iff_stored (stdin : List Byte) (stack : List Byte × List Byte)
    (request confirmation : List Byte) :
    Safe (accesses stdin stack request confirmation) ↔
      ∀ field, ∃ text, stored (request ++ [0]) field = some text ∧ text.length < field.size := by
  have only_stores : ∀ x ∈ sscanfAccesses (request ++ [0]), ∃ field i, x = .store field i := by
    intro x inside
    obtain ⟨field, _, i, _, _, same⟩ := mem_sscanfAccesses.mp inside
    exact ⟨field, i, same⟩
  rw [accesses, safe_append_iff only_stores]
  · constructor
    · rintro ⟨inside, assigned⟩ field
      obtain ⟨i, there⟩ : ∃ i, .store field i ∈ sscanfAccesses (request ++ [0]) := by
        apply assigned
        cases field with
        | command => exact List.mem_cons_self
        | fileName => exact List.mem_cons_of_mem _ List.mem_cons_self
      obtain ⟨_, text, _, kept, _, same⟩ := mem_sscanfAccesses.mp there
      cases same
      -- the NUL is stored last
      exact ⟨text, kept, inside field text.length
        (mem_sscanfAccesses.mpr ⟨field, text, text.length, kept, Nat.le_refl _, rfl⟩)⟩
    · intro fits
      constructor
      · intro field i there
        obtain ⟨_, text, _, kept, short, same⟩ := mem_sscanfAccesses.mp there
        cases same
        obtain ⟨text', kept', room⟩ := fits field
        obtain rfl : text = text' := Option.some.inj (kept.symm.trans kept')
        exact Nat.lt_of_le_of_lt short room
      · intro field _
        obtain ⟨text, kept, _⟩ := fits field
        exact ⟨0, mem_sscanfAccesses.mpr ⟨field, text, 0, kept, Nat.zero_le _, rfl⟩⟩
  · intro x inside
    rcases List.mem_cons.mp inside with rfl | inside
    · exact ⟨.command, rfl⟩
    rcases List.mem_cons.mp inside with rfl | inside
    · exact ⟨.fileName, rfl⟩
    split at inside
    · cases inside
    · split at inside
      · exact only_reads_transfer _ x inside
      · cases inside

/-- Whatever request arrives, and however the handler goes on, its arrays are written inside
and assigned before they are read exactly when the request has two words in front of its first
NUL, the first of up to 9 bytes and the second of up to 255. -/
theorem accesses_safe_iff (stdin : List Byte) (stack : List Byte × List Byte)
    (request confirmation : List Byte) :
    Safe (accesses stdin stack request confirmation) ↔
      ∃ command fileName rest, words (cstr request) = command :: fileName :: rest ∧
        command.length ≤ 9 ∧ fileName.length ≤ 255 := by
  have first : stored (request ++ [0]) .command = (words (cstr request))[0]? := by
    rw [stored, sscanf_eq_words, cstr_snoc_zero]
  have second : stored (request ++ [0]) .fileName = (words (cstr request))[1]? := by
    rw [stored, sscanf_eq_words, cstr_snoc_zero]
  rw [safe_accesses_iff_stored]
  constructor
  · intro fits
    obtain ⟨command, kept, short⟩ := fits .command
    obtain ⟨fileName, kept', short'⟩ := fits .fileName
    rw [first] at kept
    rw [second] at kept'
    cases text : words (cstr request) with
    | nil =>
      rw [text] at kept
      cases kept
    | cons word others =>
      rw [text] at kept kept'
      cases others with
      | nil => cases kept'
      | cons word' rest =>
        cases kept
        cases kept'
        exact ⟨command, fileName, rest, rfl, Nat.le_of_lt_succ short, Nat.le_of_lt_succ short'⟩
  · rintro ⟨command, fileName, rest, text, short, short'⟩ field
    cases field with
    | command =>
      refine ⟨command, ?_, Nat.lt_succ_of_le short⟩
      rw [first, text]
      rfl
    | fileName =>
      refine ⟨fileName, ?_, Nat.lt_succ_of_le short'⟩
      rw [second, text]
      rfl

/-- A request of one word is scanned, and the name printed that was never stored. -/
theorem one_word_not_safe : ¬ ∀ stdin stack request confirmation, request ≠ [] →
    request.length ≤ 8191 → Safe (accesses stdin stack request confirmation) := by
  intro claim
  obtain ⟨text, kept, _⟩ := (safe_accesses_iff_stored [] ([], []) (lit ['S', 'E', 'N', 'D']) []).mp
    (claim _ _ _ _ (by decide) (by decide)) .fileName
  have nothing : stored (lit ['S', 'E', 'N', 'D'] ++ [0]) .fileName = none := by decide +kernel
  rw [nothing] at kept
  cases kept

end Safety

end SocketChat.TestCode.FileTransfer.Request
