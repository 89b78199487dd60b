import RpictlMcp.Kernel.Utf8Text

/-!
# rpictl-mcp: text and errors

This module embeds `error.rs`.  Texts that come out of a running system (console
output, the output of a subprocess, error messages built from them) are
represented by their UTF-8 bytes; strings fixed by the source, by a request or
by the configuration are Lean strings and enter such texts through `utf8`.
-/

namespace RpictlMcp

/-- A text, as its UTF-8 bytes. -/
abbrev Text := List UInt8

/-- The UTF-8 bytes of a string. -/
def utf8 (s : String) : Text :=
  s.toList.flatMap String.utf8EncodeChar

theorem utf8_append (s s' : String) : utf8 (s ++ s') = utf8 s ++ utf8 s' := by
  simp [utf8]

theorem utf8_eq_nil_iff {s : String} : utf8 s = [] ↔ s = "" := by
  simp [utf8, ← List.eq_nil_iff_forall_not_mem]

theorem isUtf8_utf8 (s : String) : isUtf8 (utf8 s) = true :=
  isUtf8_encode s.toList

/-- A string is decoded as it stands. -/
theorem fromUtf8Lossy_utf8 (s : String) : fromUtf8Lossy (utf8 s) = utf8 s :=
  fromUtf8Lossy_of_isUtf8 (isUtf8_utf8 s)

/-- The stable error codes of the service. -/
inductive ErrorCode where
  | boardNotFound
  | boardBusy
  | serialOpenFailed
  | serialDisconnected
  | powerBackendFailed
  | powerIdentityMismatch
  | powerStateUnverified
  | stateTimeout
  | ubootPromptNotFound
  | linuxLoginFailed
  | shellNotSynchronized
  | commandDenied
  | confirmationRequired
  | commandTimeout
  | commandExitNonzero
  | outputTruncated
  | recoveryFailed
  | operationCancelled
  | invalidConfiguration
deriving DecidableEq, Repr

/-- The name of an error code on the wire. -/
def ErrorCode.asStr : ErrorCode → String
  | .boardNotFound => "BOARD_NOT_FOUND"
  | .boardBusy => "BOARD_BUSY"
  | .serialOpenFailed => "SERIAL_OPEN_FAILED"
  | .serialDisconnected => "SERIAL_DISCONNECTED"
  | .powerBackendFailed => "POWER_BACKEND_FAILED"
  | .powerIdentityMismatch => "POWER_IDENTITY_MISMATCH"
  | .powerStateUnverified => "POWER_STATE_UNVERIFIED"
  | .stateTimeout => "STATE_TIMEOUT"
  | .ubootPromptNotFound => "UBOOT_PROMPT_NOT_FOUND"
  | .linuxLoginFailed => "LINUX_LOGIN_FAILED"
  | .shellNotSynchronized => "SHELL_NOT_SYNCHRONIZED"
  | .commandDenied => "COMMAND_DENIED"
  | .confirmationRequired => "CONFIRMATION_REQUIRED"
  | .commandTimeout => "COMMAND_TIMEOUT"
  | .commandExitNonzero => "COMMAND_EXIT_NONZERO"
  | .outputTruncated => "OUTPUT_TRUNCATED"
  | .recoveryFailed => "RECOVERY_FAILED"
  | .operationCancelled => "OPERATION_CANCELLED"
  | .invalidConfiguration => "INVALID_CONFIGURATION"

/-- An error of the service: its code, the phase it arose in and a message. -/
structure Error where
  code : ErrorCode
  phase : String
  message : Text
  recovery : Option Text
deriving DecidableEq, Repr

/-- An error without a recovery hint; every error of the service is built so. -/
def Error.new (code : ErrorCode) (phase : String) (message : Text) : Error :=
  ⟨code, phase, message, none⟩

@[simp] theorem Error.new_code (code : ErrorCode) (phase : String)
    (message : Text) : (Error.new code phase message).code = code := rfl

/-- The text of an error in a response: code, phase and message. -/
def Error.display (error : Error) : Text :=
  utf8 error.code.asStr ++ utf8 " during " ++ utf8 error.phase ++
    utf8 ": " ++ error.message

end RpictlMcp
