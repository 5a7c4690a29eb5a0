/-
**`switch_util_quote_shell_arg`.**

The function puts a text into single quotation marks for a POSIX shell. A first loop computes the
size of the result and a second one writes it, with a quotation mark inside the text as a closing
mark, an escaped one and an opening one. At the end it asserts that it has written as many bytes as
it has computed.

* `quote_is_one_word`: the assertion holds, and a shell reads the result as one word, the text.
-/

import FreeSwitch.Lib.Shell

namespace FreeSwitch

open CString List Shell

/-! ### The function -/

/-- A `size_t`. -/
def size64 (n : Nat) : Nat := n % 2 ^ 64

/-- The loop that adds up `dest_len`: three more bytes for a quotation mark. -/
def quoteSizeFrom (destLen : Nat) : Text → Nat
  | [] => destLen
  | '\'' :: string => quoteSizeFrom (size64 (destLen + 3)) string
  | _ :: string => quoteSizeFrom destLen string

/-- `dest_len`: the text and its NUL, and two quotation marks. -/
def quoteSize (string : Text) : Nat :=
  size64 (quoteSizeFrom (size64 (size64 (size64 string.length + 1) + 1)) string + 1)

/-- The bytes written to `dest`, and the index `n` of the next one. -/
structure ShellDest where
  dest : Text
  n : Nat
deriving DecidableEq

/-- `dest[n++] = c`. -/
def ShellDest.put (out : ShellDest) (c : Char) : ShellDest := ⟨out.dest ++ [c], size64 (out.n + 1)⟩

def quoteInto (out : ShellDest) : Text → ShellDest
  | [] => out
  | '\'' :: string => quoteInto ((((out.put '\'').put '\\').put '\'').put '\'') string
  | c :: string => quoteInto (out.put c) string

/-- `switch_util_quote_shell_arg_pool`; no result where the assertion fails. The NUL is written as
the other bytes are, and is no part of the text returned. -/
def quoteShellArgPool (string : Text) : Option Text :=
  let out := (quoteInto ((⟨[], 0⟩ : ShellDest).put '\'') string).put '\''
  if (out.put '\x00').n = quoteSize string then some out.dest else none

/-- `switch_util_quote_shell_arg`: it has no pool. -/
def quoteShellArg (string : Text) : Option Text := quoteShellArgPool string

/-! ### The two loops -/

def shellByte (c : Char) : Text := if c = '\'' then ['\'', '\\', '\'', '\''] else [c]

def shellBytes (string : Text) : Text := string.flatMap shellByte

theorem shellBytes_cons (c : Char) (string : Text) :
    shellBytes (c :: string) = shellByte c ++ shellBytes string := flatMap_cons ..

theorem size64_add (a b : Nat) : size64 (size64 a + b) = size64 (a + b) := Nat.mod_add_mod ..

theorem shellBytes_length (string : Text) :
    (shellBytes string).length = string.length + 3 * string.count '\'' := by
  induction string with
  | nil => rfl
  | cons c string ih =>
    rw [shellBytes_cons, length_append, ih, length_cons, count_cons]
    by_cases mark : c = '\''
    · simp only [shellByte, mark, if_true, length_cons, length_nil, beq_self_eq_true]
      omega
    · simp only [shellByte, mark, if_false, length_cons, length_nil, beq_iff_eq]
      omega

theorem quoteSizeFrom_eq (destLen : Nat) (string : Text) :
    size64 (quoteSizeFrom destLen string) = size64 (destLen + 3 * string.count '\'') := by
  fun_induction quoteSizeFrom destLen string with
  | case1 destLen => rfl
  | case2 destLen string ih =>
    rw [ih, size64_add, count_cons_self]
    congr 1
    omega
  | case3 destLen c string other ih =>
    have misses : c ≠ '\'' := other
    rw [ih, count_cons_of_ne misses]

theorem quoteSize_eq (string : Text) : quoteSize string = size64 ((shellBytes string).length + 3) := by
  rw [quoteSize, ← size64_add, quoteSizeFrom_eq, size64_add, Nat.add_assoc, size64_add, Nat.add_assoc,
    size64_add, Nat.add_assoc, size64_add, shellBytes_length]
  congr 1
  omega

theorem quoteInto_eq (out : ShellDest) (string : Text) (counted : out.n = size64 out.dest.length) :
    quoteInto out string =
      ⟨out.dest ++ shellBytes string, size64 (out.dest ++ shellBytes string).length⟩ := by
  fun_induction quoteInto out string with
  | case1 out =>
    have same : out.dest ++ shellBytes [] = out.dest := append_nil _
    rw [same, ← counted]
  | case2 out string ih =>
    have next : ((((out.put '\'').put '\\').put '\'').put '\'').n =
        size64 ((((out.put '\'').put '\\').put '\'').put '\'').dest.length := by
      simp only [ShellDest.put, size64_add, counted, length_append, length_cons,
        length_nil]
    rw [ih next, shellBytes_cons]
    simp only [ShellDest.put, shellByte, if_true, append_assoc, cons_append,
      nil_append]
  | case3 out c string other ih =>
    have next : (out.put c).n = size64 (out.put c).dest.length := by
      simp only [ShellDest.put, size64_add, counted, length_append, length_cons,
        length_nil]
    have single : shellByte c = [c] := if_neg other
    rw [ih next, shellBytes_cons, single]
    simp only [ShellDest.put, append_assoc]

theorem quoteShellArg_eq (string : Text) :
    quoteShellArg string = some ('\'' :: shellBytes string ++ ['\'']) := by
  have copied := quoteInto_eq ((⟨[], 0⟩ : ShellDest).put '\'') string rfl
  have size : (((⟨'\'' :: shellBytes string, size64 ('\'' :: shellBytes string).length⟩ :
      ShellDest).put '\'').put '\x00').n = quoteSize string := by
    rw [quoteSize_eq]
    simp only [ShellDest.put, size64_add, length_cons]
  unfold quoteShellArg quoteShellArgPool
  simp only [copied]
  exact if_pos size

/-! ### The shell -/

section Reading

open Shell

variable {found : List Shell.Token} {marks : List Mark}

theorem read_shellBytes (string : Text) :
    (⟨found, some marks, .single⟩ : Reader).read (shellBytes string) =
      some ⟨found, some (marks ++ quoted string), .single⟩ := by
  induction string generalizing marks with
  | nil => simp [shellBytes, Reader.read, quoted]
  | cons c string ih =>
    have byte : (⟨found, some marks, .single⟩ : Reader).read (shellByte c) =
        some ⟨found, some (marks ++ [⟨c, true⟩]), .single⟩ := by
      by_cases mark : c = '\''
      · -- the quotation is closed, an escaped quotation mark follows, and it is opened again
        subst mark
        rfl
      · rw [shellByte, if_neg mark, read_single (by simpa using Ne.symm mark)]
        rfl
    rw [shellBytes_cons, read_append, byte, Option.bind_some, ih]
    simp [quoted]

/-- **The quoted text is read as a piece of a word**, wherever the reader is outside quotation
marks and comments. -/
theorem read_quoteShellArg {string dest : Text} (returned : quoteShellArg string = some dest)
    (word : Option (List Mark)) :
    (⟨found, word, .plain⟩ : Reader).read dest =
      some ⟨found, some (word.getD [] ++ quoted string), .plain⟩ := by
  rw [quoteShellArg_eq] at returned
  obtain rfl := Option.some.inj returned
  have opened : (⟨found, word, .plain⟩ : Reader).take '\'' =
      some ⟨found, some (word.getD []), .single⟩ := rfl
  rw [cons_append, read_cons, opened, Option.bind_some, read_append, read_shellBytes,
    Option.bind_some]
  rfl

end Reading

/-- **The assertion of `switch_util_quote_shell_arg` holds, and a shell reads what it returns as one
word, whose value is the text.** -/
theorem quote_is_one_word (string : Text) :
    ∃ dest, quoteShellArg string = some dest ∧ words dest = some [string] := by
  refine ⟨_, quoteShellArg_eq string, ?_⟩
  have read : (⟨[], none, .plain⟩ : Reader).read ('\'' :: shellBytes string ++ ['\'']) =
      some ⟨[], some (quoted string), .plain⟩ :=
    read_quoteShellArg (quoteShellArg_eq string) none
  have one : Shell.tokens ('\'' :: shellBytes string ++ ['\'']) =
      some [.word (quoted string)] := by
    rw [Shell.tokens, Reader.start, read]
    rfl
  rw [words, one]
  simp [literal_quoted]

example : quoteShellArg "it's; rm -rf $HOME" =
    some "'it'\\''s; rm -rf $HOME'" := by decide

end FreeSwitch
