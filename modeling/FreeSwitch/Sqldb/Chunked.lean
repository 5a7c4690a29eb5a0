/-
**SQL in chunks.**

`switch_cache_db_execute_sql_chunked` cuts a text of SQL statements, in place, at the last `;`
newline of each chunk and executes the parts. It stops, with the status of the part before, where no
`;` newline ends within a chunk and where one character or less is left.

* `chunked_complete_iff`: which texts are executed as a whole whenever the function succeeds.
-/

import FreeSwitch.Lib.Split
import FreeSwitch.Lib.StringMemory

namespace FreeSwitch

open CString Function List Option StringMemory

/-! ### The code -/

/-- What `switch_cache_db_execute_sql_real` gives: whether it succeeds, and the error message. -/
structure ExecAnswer where
  success : Bool
  errmsg : Option Text
deriving DecidableEq

abbrev Database := List Text → Text → ExecAnswer

/-- The status, `*err`, and the texts that were executed. -/
structure SqlExecuted where
  success : Bool
  err : Option Text
  texts : List Text
deriving DecidableEq

/-- The string at an index, of which at most `n` bytes are read. -/
def stringAt (mem : Memory) : (n p : Nat) → Text
  | 0, _ => []
  | n + 1, p => if mem p = nul then [] else mem p :: stringAt mem n (p + 1)

variable (database : Database) (wantsErr : Bool)

/-- `switch_cache_db_execute_sql_real`; the caller has passed an `err` or not. -/
def executeSqlReal (texts : List Text) (sql : Text) : SqlExecuted :=
  let answer := database texts sql
  ⟨answer.success, if wantsErr then answer.errmsg else none, texts ++ [sql]⟩

/-- The inner loop, backwards from `p` to `s`: the newline of the last `;` newline. -/
def findCut (mem : Memory) (s : Nat) : (p : Nat) → Option Nat
  | 0 => none
  | p + 1 =>
    if s < p + 1 then
      if mem (p + 1) = '\n' ∧ mem p = ';' then some (p + 1) else findCut mem s p
    else none

theorem findCut_some {mem : Memory} {s p cut : Nat} (found : findCut mem s p = some cut) :
    s < cut ∧ cut ≤ p ∧ mem cut = '\n' ∧ mem (cut - 1) = ';' := by
  induction p with
  | zero => cases found
  | succ p ih =>
    rw [findCut] at found
    by_cases inside : s < p + 1
    · rw [if_pos inside] at found
      by_cases here : mem (p + 1) = '\n' ∧ mem p = ';'
      · rw [if_pos here, some.injEq] at found
        subst found
        exact ⟨inside, le_rfl, here⟩
      · rw [if_neg here] at found
        obtain ⟨after, before, bytes⟩ := ih found
        exact ⟨after, by omega, bytes⟩
    · rw [if_neg inside] at found
      cases found

/-- The outer loop, from `s`; `e` is the last character, `result` what was done before. -/
def chunkLoop (database : Database) (wantsErr : Bool) (chunkSize e : Nat) (mem : Memory) (s : Nat)
    (result : SqlExecuted) : SqlExecuted :=
  if s < e then
    match found : findCut mem s (min (s + chunkSize) e) with
    | none => result
    | some p =>
      let mem := update (update mem p nul) (p - 1) nul
      let result := executeSqlReal database wantsErr result.texts (stringAt mem (e + 1 - s) s)
      if result.success = false ∨ result.err ≠ none then result
      else chunkLoop database wantsErr chunkSize e mem (p + 1) result
  else result
termination_by e - s
decreasing_by
  have := (findCut_some found).1
  omega

/-- `switch_cache_db_execute_sql_chunked`; `chunk_count` is an `int`. -/
def executeSqlChunked (chunkSize : Nat) (sql : Text) : SqlExecuted :=
  if sql.length < chunkSize then executeSqlReal database wantsErr [] sql
  else if (sql.length / chunkSize) % 2 ^ 32 = 0 then ⟨false, none, []⟩
  else chunkLoop database wantsErr chunkSize (sql.length - 1) (ofText sql) 0 ⟨false, none, []⟩

def executeSql (sql : Text) : SqlExecuted :=
  executeSqlChunked database wantsErr 32768 sql

/-! ### Statements -/

/-- The statements of a text: what stands between one `;` newline and the next. -/
def statements (sql : Text) : List Text := (splitStr ';' ['\n'] sql).filter (· ≠ [])

/-- Whenever the function succeeds without error, what was executed has each statement once, in
order. -/
def LosesNothing (chunkSize : Nat) (sql : Text) : Prop :=
  ∀ database wantsErr, (executeSqlChunked database wantsErr chunkSize sql).success = true →
    (executeSqlChunked database wantsErr chunkSize sql).err = none →
    (executeSqlChunked database wantsErr chunkSize sql).texts.flatMap statements = statements sql

/-- All statements are terminated, and each ends, with its `;` newline, within a chunk that begins
with it. -/
def AllFit (chunkSize : Nat) (sql : Text) : Prop :=
  (splitStr ';' ['\n'] sql).getLast? = some [] ∧
    ∀ piece ∈ splitStr ';' ['\n'] sql, piece.length + 1 ≤ chunkSize

theorem statements_append (a b : Text) :
    statements (a ++ ';' :: '\n' :: b) = statements a ++ statements b := by
  have pieces := splitStr_append (show ';' ∉ ['\n'] by decide) a b
  rw [singleton_append] at pieces
  rw [statements, pieces, filter_append]
  rfl

theorem allFit_append {chunkSize : Nat} {a : Text} (within : a.length + 1 ≤ chunkSize) (b : Text) :
    AllFit chunkSize (a ++ ';' :: '\n' :: b) ↔ AllFit chunkSize b := by
  have pieces := splitStr_append (show ';' ∉ ['\n'] by decide) a b
  rw [singleton_append] at pieces
  have last : (splitStr ';' ['\n'] a ++ splitStr ';' ['\n'] b).getLast? =
      (splitStr ';' ['\n'] b).getLast? :=
    getLast?_append_of_ne_nil _ (splitStr_ne_nil _ _ b)
  rw [AllFit, AllFit, pieces, last, forall_mem_append]
  have short : ∀ piece ∈ splitStr ';' ['\n'] a, piece.length + 1 ≤ chunkSize := by
    intro piece member
    have := splitStr_length piece member
    omega
  exact ⟨fun ⟨ends, _, fit⟩ => ⟨ends, fit⟩, fun ⟨ends, fit⟩ => ⟨ends, short, fit⟩⟩

theorem tooLong_statements {chunkSize : Nat} (positive : 1 ≤ chunkSize) {sql : Text}
    (some : sql ≠ []) (tooLong : ∀ a b, sql = a ++ ';' :: '\n' :: b → chunkSize < a.length + 1) :
    statements sql ≠ [] ∧ ¬ AllFit chunkSize sql := by
  cases found : (cutStr ';' ['\n'] sql).2 with
  | none =>
    rw [statements, AllFit, splitStr_none found]
    refine ⟨by simpa using some, fun fit => some ?_⟩
    exact Option.some.inj fit.1
  | some rest =>
    have whole := (cutStr_found (Prod.ext rfl found)).1
    have long : chunkSize < (cutStr ';' ['\n'] sql).1.length + 1 := tooLong _ _ whole
    have nonempty : (cutStr ';' ['\n'] sql).1 ≠ [] := by
      intro empty
      rw [empty, length_nil] at long
      omega
    rw [statements, AllFit, splitStr_some found]
    constructor
    · rw [filter_cons_of_pos (by simpa using nonempty)]
      exact cons_ne_nil _ _
    · intro fit
      have := fit.2 _ mem_cons_self
      omega

/-! ### The loop -/

section Loop

variable {mem : Memory} {s p : Nat} {rest : Text}

theorem stringAt_holds {n : Nat} (holds : Holds mem p rest) (enough : rest.length ≤ n) :
    stringAt mem n p = rest := by
  induction rest generalizing n p with
  | nil =>
    cases n with
    | zero => rfl
    | succ n => exact if_pos holds
  | cons c rest ih =>
    cases n with
    | zero => exact absurd enough (by simp)
    | succ n =>
      obtain ⟨here, byte, later⟩ := holds
      rw [stringAt, if_neg (here ▸ byte), here, ih later (by simpa using enough)]

theorem findCut_none (nothing : findCut mem s p = none) {cut : Nat} (after : s < cut)
    (before : cut ≤ p) : ¬ (mem cut = '\n' ∧ mem (cut - 1) = ';') := by
  induction p with
  | zero => omega
  | succ p ih =>
    rw [findCut, if_pos (by omega)] at nothing
    by_cases here : mem (p + 1) = '\n' ∧ mem p = ';'
    · rw [if_pos here] at nothing
      cases nothing
    · rw [if_neg here] at nothing
      rcases Nat.le_or_eq_of_le_succ before with before | rfl
      · exact ih nothing before
      · exact here

theorem separator_at (holds : Holds mem s rest) {cut : Nat} (after : s < cut)
    (before : cut < s + rest.length) (newline : mem cut = '\n') (semicolon : mem (cut - 1) = ';') :
    ∃ a b, rest = a ++ ';' :: '\n' :: b ∧ cut = s + a.length + 1 := by
  have short : (rest.take (cut - 1 - s)).length = cut - 1 - s := by
    rw [length_take]
    omega
  rw [← take_append_drop (cut - 1 - s) rest] at holds
  have tail := holds.behind
  rw [short, show s + (cut - 1 - s) = cut - 1 by omega] at tail
  obtain ⟨tail', first, tail⟩ := tail.exists_cons (by rw [semicolon]; decide)
  rw [show cut - 1 + 1 = cut by omega] at tail
  obtain ⟨b, second, -⟩ := tail.exists_cons (by rw [newline]; decide)
  refine ⟨rest.take (cut - 1 - s), b, ?_, by omega⟩
  rw [← newline, ← semicolon, ← second, ← first, take_append_drop]

theorem findCut_text {chunkSize e : Nat} (holds : Holds mem s rest) (size : s + rest.length = e + 1)
    (found : findCut mem s (min (s + chunkSize) e) = some p) :
    ∃ a b, rest = a ++ ';' :: '\n' :: b ∧ p = s + a.length + 1 ∧ a.length + 1 ≤ chunkSize := by
  obtain ⟨after, before, newline, semicolon⟩ := findCut_some found
  obtain ⟨a, b, whole, position⟩ := separator_at holds after (by omega) newline semicolon
  exact ⟨a, b, whole, position, by omega⟩

theorem findCut_text_none {chunkSize e : Nat} (holds : Holds mem s rest)
    (size : s + rest.length = e + 1) (nothing : findCut mem s (min (s + chunkSize) e) = none) :
    ∀ a b, rest = a ++ ';' :: '\n' :: b → chunkSize < a.length + 1 := by
  intro a b whole
  by_contra short
  subst whole
  simp only [length_append, length_cons] at size
  have tail := holds.behind
  refine findCut_none nothing (show s < s + a.length + 1 by omega) (by omega) ⟨tail.2.2.1, ?_⟩
  exact tail.1

theorem cut_holds {a b : Text} (holds : Holds mem s (a ++ ';' :: '\n' :: b)) :
    let cut := update (update mem (s + a.length + 1) nul) (s + a.length) nul
    Holds cut s a ∧ Holds cut (s + a.length + 1 + 1) b := by
  have tail := holds.behind.2.2.2.2
  constructor
  · have front := holds.cutAt
    refine front.congr fun i low high => ?_
    by_cases last : i = s + a.length
    · rw [last, update_self, update_self]
    · rw [update_of_ne last, update_of_ne last,
        update_of_ne (by omega)]
  · exact (tail.store nul (by omega)).store nul (by omega)

variable {database : Database} {wantsErr : Bool} {chunkSize e : Nat} {result : SqlExecuted}

/-- **What a run that succeeds leaves**: a rest with no statement exactly where all fit. -/
theorem chunkLoop_spec (positive : 1 ≤ chunkSize) (holds : Holds mem s rest)
    (size : s + rest.length = e + 1)
    (success : (chunkLoop database wantsErr chunkSize e mem s result).success = true)
    (clean : (chunkLoop database wantsErr chunkSize e mem s result).err = none) :
    ∃ left, (chunkLoop database wantsErr chunkSize e mem s result).texts.flatMap statements ++
        statements left = result.texts.flatMap statements ++ statements rest ∧
      (statements left = [] ↔ AllFit chunkSize rest) := by
  fun_induction chunkLoop database wantsErr chunkSize e mem s result generalizing rest with
  | case1 mem s result more nothing =>
    have some : rest ≠ [] := by
      rintro rfl
      rw [length_nil] at size
      omega
    obtain ⟨lost, long⟩ := tooLong_statements positive some (findCut_text_none holds size nothing)
    exact ⟨rest, rfl, fun none => absurd none lost, fun fit => absurd fit long⟩
  | case2 mem s result more p found mem' result' =>
    rename_i stops
    exact absurd stops (by simp [success, clean])
  | case3 mem s result more p found mem' result' goes =>
    rename_i ih
    obtain ⟨a, b, rfl, rfl, within⟩ := findCut_text holds size found
    obtain ⟨front, back⟩ := cut_holds holds
    simp only [length_append, length_cons] at size
    obtain ⟨left, executed, fit⟩ := ih back (by omega) success clean
    refine ⟨left, ?_, fit.trans (allFit_append within b).symm⟩
    have text : stringAt mem' (e + 1 - s) s = a := stringAt_holds front (by omega)
    rw [executed, statements_append]
    show (result.texts ++ [stringAt mem' (e + 1 - s) s]).flatMap statements ++ _ = _
    rw [text, flatMap_append, flatMap_singleton, append_assoc]
  | case4 mem s result short =>
    refine ⟨rest, rfl, ?_⟩
    match rest with
    | [] => exact ⟨fun _ => ⟨by simp [splitStr, cutStr], by simpa [splitStr, cutStr]⟩, fun _ => by
        simp [statements, splitStr, cutStr]⟩
    | [c] =>
      obtain ⟨lost, long⟩ := tooLong_statements positive (cons_ne_nil c []) fun a b whole => by
        have := congrArg List.length whole
        simp at this
        omega
      exact ⟨fun none => absurd none lost, fun fit => absurd fit long⟩
    | c :: c' :: rest =>
      simp only [length_cons] at size
      omega

def willing : Database := fun _ _ => ⟨true, none⟩

theorem chunkLoop_willing (success : result.success = true) (clean : result.err = none) :
    (chunkLoop willing wantsErr chunkSize e mem s result).success = true ∧
      (chunkLoop willing wantsErr chunkSize e mem s result).err = none := by
  fun_induction chunkLoop willing wantsErr chunkSize e mem s result with
  | case1 => exact ⟨success, clean⟩
  | case2 mem s result more p found mem' result' stops =>
    exact absurd stops (by simp [result', executeSqlReal, willing])
  | case3 mem s result more p found mem' result' goes ih =>
    exact ih rfl (by simp [result', executeSqlReal, willing])
  | case4 => exact ⟨success, clean⟩

theorem chunkLoop_cut (more : s < e) (found : findCut mem s (min (s + chunkSize) e) = some p) :
    chunkLoop database wantsErr chunkSize e mem s result =
      let cut := update (update mem p nul) (p - 1) nul
      let result := executeSqlReal database wantsErr result.texts (stringAt cut (e + 1 - s) s)
      if result.success = false ∨ result.err ≠ none then result
      else chunkLoop database wantsErr chunkSize e cut (p + 1) result := by
  rw [chunkLoop, if_pos more]
  split
  next nothing =>
    rw [found] at nothing
    cases nothing
  next cut =>
    obtain rfl := some.inj (found.symm.trans cut)
    rfl

end Loop

/-! ### The whole function -/

section Whole

variable {chunkSize : Nat} {sql : Text}

/-- The first statement, with its `;` newline, does not end within the first chunk. -/
def FirstTooLong (chunkSize : Nat) (sql : Text) : Prop :=
  ∀ first ∈ (splitStr ';' ['\n'] sql).head?, chunkSize < first.length + 1

theorem firstTooLong_iff (long : chunkSize ≤ sql.length) :
    FirstTooLong chunkSize sql ↔
      ∀ a b, sql = a ++ ';' :: '\n' :: b → chunkSize < a.length + 1 := by
  constructor
  · rintro tooLong a b rfl
    have pieces := splitStr_append (show ';' ∉ ['\n'] by decide) a b
    rw [singleton_append] at pieces
    obtain ⟨first, others, split⟩ := exists_cons_of_ne_nil (splitStr_ne_nil ';' ['\n'] a)
    have within : first.length ≤ a.length := splitStr_length first (split ▸ mem_cons_self)
    have := tooLong first (by rw [pieces, split]; rfl)
    omega
  · intro tooLong first member
    cases found : (cutStr ';' ['\n'] sql).2 with
    | none =>
      rw [splitStr_none found] at member
      obtain rfl := some.inj member
      omega
    | some rest =>
      rw [splitStr_some found] at member
      obtain rfl := some.inj member
      exact tooLong _ _ (cutStr_found (Prod.ext rfl found)).1

theorem losesNothing_short (short : sql.length < chunkSize) : LosesNothing chunkSize sql := by
  intro database wantsErr _ _
  rw [executeSqlChunked, if_pos short]
  exact flatMap_singleton ..

theorem chunkLoop_tooLong (string : nul ∉ sql) (long : chunkSize ≤ sql.length)
    (positive : 1 ≤ chunkSize) (tooLong : FirstTooLong chunkSize sql) :
    (chunkLoop database wantsErr chunkSize (sql.length - 1) (ofText sql) 0 ⟨false, none, []⟩).success =
      false := by
  rw [chunkLoop]
  split
  · split
    · rfl
    next p found =>
      obtain ⟨a, b, whole, -, within⟩ :=
        findCut_text (holds_ofText string) (by omega) found
      have := (firstTooLong_iff long).mp tooLong a b whole
      omega
  · rfl

theorem chunkLoop_begins (string : nul ∉ sql) (long : chunkSize ≤ sql.length)
    (positive : 1 ≤ chunkSize) (fits : ¬ FirstTooLong chunkSize sql) :
    chunkLoop database wantsErr chunkSize (sql.length - 1) (ofText sql) 0 ⟨false, none, []⟩ =
      chunkLoop database wantsErr chunkSize (sql.length - 1) (ofText sql) 0 ⟨true, none, []⟩ := by
  have size : 0 + sql.length = sql.length - 1 + 1 := by omega
  cases found : findCut (ofText sql) 0 (min (0 + chunkSize) (sql.length - 1)) with
  | none =>
    exact absurd ((firstTooLong_iff long).mpr (findCut_text_none (holds_ofText string) size found))
      fits
  | some p =>
    have inside := findCut_some found
    rw [chunkLoop_cut (by omega) found, chunkLoop_cut (by omega) found]

/-- **When nothing is lost**: the text is shorter than a chunk, `chunk_count` is zero or the first
statement is too long (and the function fails), or all statements are terminated and fit. -/
theorem chunked_complete_iff (positive : 1 ≤ chunkSize) (string : nul ∉ sql) :
    LosesNothing chunkSize sql ↔
      sql.length < chunkSize ∨ (sql.length / chunkSize) % 2 ^ 32 = 0 ∨
        FirstTooLong chunkSize sql ∨ AllFit chunkSize sql := by
  by_cases short : sql.length < chunkSize
  · exact iff_of_true (losesNothing_short short) (.inl short)
  have long : chunkSize ≤ sql.length := Nat.le_of_not_lt short
  by_cases zero : (sql.length / chunkSize) % 2 ^ 32 = 0
  · refine iff_of_true (fun database wantsErr success _ => ?_) (.inr (.inl zero))
    rw [executeSqlChunked, if_neg short, if_pos zero] at success
    cases success
  by_cases tooLong : FirstTooLong chunkSize sql
  · refine iff_of_true (fun database wantsErr success _ => ?_) (.inr (.inr (.inl tooLong)))
    rw [executeSqlChunked, if_neg short, if_neg zero,
      chunkLoop_tooLong database wantsErr string long positive tooLong] at success
    cases success
  have chunked : ∀ database wantsErr, executeSqlChunked database wantsErr chunkSize sql =
      chunkLoop database wantsErr chunkSize (sql.length - 1) (ofText sql) 0 ⟨true, none, []⟩ := by
    intro database wantsErr
    rw [executeSqlChunked, if_neg short, if_neg zero]
    exact chunkLoop_begins database wantsErr string long positive tooLong
  have size : 0 + sql.length = sql.length - 1 + 1 := by omega
  simp only [LosesNothing, chunked, short, zero, tooLong, false_or]
  constructor
  · intro nothingLost
    have goes (result : SqlExecuted) (success : result.success = true) (clean : result.err = none) :
        (chunkLoop willing true chunkSize (sql.length - 1) (ofText sql) 0 result).success = true ∧
          (chunkLoop willing true chunkSize (sql.length - 1) (ofText sql) 0 result).err = none :=
      chunkLoop_willing success clean
    obtain ⟨success, clean⟩ := goes ⟨true, none, []⟩ rfl rfl
    obtain ⟨left, executed, fit⟩ := chunkLoop_spec positive (holds_ofText string) size success clean
    rw [nothingLost willing true success clean] at executed
    exact fit.mp (append_right_eq_self.mp executed)
  · intro fit database wantsErr success clean
    obtain ⟨left, executed, fit'⟩ := chunkLoop_spec positive (holds_ofText string) size success clean
    rw [fit'.mpr fit, append_nil] at executed
    exact executed

end Whole

/-- The instance of two terminated statements in chunks of five characters. -/
theorem chunked_complete_two : LosesNothing 5 "ab;\ncd;\n" := by
  refine (chunked_complete_iff (by decide) (by decide)).mpr (.inr (.inr (.inr ?_)))
  simp [AllFit, splitStr, cutStr]

/-- **The last statement is lost when no `;` newline stands behind it**: of `a` and `b`, in chunks of
three characters, only `a` is executed, and the function succeeds. -/
theorem last_statement_lost :
    executeSqlChunked willing true 3 "a;\nb" = ⟨true, none, [['a']]⟩ ∧
      statements "a;\nb" = [['a'], ['b']] := by
  constructor
  · have first : findCut (ofText "a;\nb") 0 (min (0 + 3) 3) = some 2 := by decide
    rw [executeSqlChunked, if_neg (by decide), if_neg (by decide)]
    show chunkLoop willing true 3 3 (ofText "a;\nb") 0 _ = _
    rw [chunkLoop_cut (by decide) first, if_neg (by decide), chunkLoop, if_neg (by decide)]
    decide
  · simp [statements, splitStr, cutStr]

end FreeSwitch
