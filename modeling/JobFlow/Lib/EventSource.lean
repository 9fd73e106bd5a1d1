import Mathlib.Data.List.Basic

/-!
# The event stream format

A stream is read line by line, a line ending with a carriage return, a line feed or
both. A line is a comment, a field, or blank; the fields since the last blank line make
up a message, which the blank line dispatches.
-/

namespace JobFlow.Lib.EventSource

structure Message where
  type : String
  data : String
  lastEventId : String
  deriving DecidableEq

/-- The lines of a stream that have ended, the first of them begun with `line`. -/
def lines : List Char → List Char → List (List Char)
  | _, [] => []
  | line, '\r' :: '\n' :: rest => line :: lines [] rest
  | line, '\r' :: rest => line :: lines [] rest
  | line, '\n' :: rest => line :: lines [] rest
  | line, c :: rest => lines (line ++ [c]) rest

/-- The buffers between two lines. -/
structure Buffers where
  data : List Char := []
  eventType : List Char := []
  lastEventId : List Char := []

/-- A blank line. The data end with the line feed of their last line. -/
def dispatch (b : Buffers) : Buffers × Option Message :=
  ({ b with data := [], eventType := [] },
    if b.data = [] then none
    else some ⟨if b.eventType = [] then "message" else String.ofList b.eventType,
      String.ofList b.data.dropLast, String.ofList b.lastEventId⟩)

/-- One field. The delay that `retry` sets is not part of a message. -/
def field (b : Buffers) (name value : List Char) : Buffers :=
  if name = ['d', 'a', 't', 'a'] then { b with data := b.data ++ value ++ ['\n'] }
  else if name = ['e', 'v', 'e', 'n', 't'] then { b with eventType := value }
  else if name = ['i', 'd'] ∧ Char.ofNat 0 ∉ value then { b with lastEventId := value }
  else b

/-- What stands after the colon, without one leading space. -/
def value : List Char → List Char
  | ':' :: ' ' :: rest => rest
  | ':' :: rest => rest
  | rest => rest

def feed (b : Buffers) : List Char → Buffers × Option Message
  | [] => dispatch b
  | ':' :: _ => (b, none)
  | c :: line =>
    (field b ((c :: line).takeWhile (· != ':')) (value ((c :: line).dropWhile (· != ':'))), none)

def read : Buffers → List (List Char) → List Message
  | _, [] => []
  | b, line :: rest => (feed b line).2.toList ++ read (feed b line).1 rest

/-- A byte order mark at the start is skipped. -/
def skipMark (stream : List Char) : List Char :=
  if stream.head? = some (Char.ofNat 0xFEFF) then stream.tail else stream

def messages (stream : String) : List Message := read {} (lines [] (skipMark stream.toList))

/-- A text within one line. -/
def OneLine (text : List Char) : Prop := ∀ c ∈ text, c ≠ '\r' ∧ c ≠ '\n'

theorem OneLine.append {s t : List Char} (hs : OneLine s) (ht : OneLine t) : OneLine (s ++ t) :=
  fun c hc => (List.mem_append.mp hc).elim (hs c) (ht c)

/-- A text without line ends only makes the line longer. -/
theorem lines_oneLine {text : List Char} (h : OneLine text) (line rest : List Char) :
    lines line (text ++ rest) = lines (line ++ text) rest := by
  induction text generalizing line with
  | nil => rw [List.nil_append, List.append_nil]
  | cons c text ih =>
    obtain ⟨hcr, hlf⟩ := h c List.mem_cons_self
    have hc : lines line (c :: (text ++ rest)) = lines (line ++ [c]) (text ++ rest) := by
      rw [lines]
      · exact fun _ he => absurd he hcr
      · exact hcr
      · exact hlf
    rw [List.cons_append, hc, ih fun d hd => h d (List.mem_cons_of_mem _ hd), List.append_assoc,
      List.singleton_append]

/-- A field with its data on one line, and the blank line that dispatches it. -/
def frame (data : List Char) : List Char :=
  ['d', 'a', 't', 'a', ':', ' '] ++ data ++ ['\n', '\n']

theorem lines_frame {data : List Char} (h : OneLine data) (rest : List Char) :
    lines [] (frame data ++ rest) =
      (['d', 'a', 't', 'a', ':', ' '] ++ data) :: [] :: lines [] rest := by
  have hline : OneLine (['d', 'a', 't', 'a', ':', ' '] ++ data) := .append (by simp [OneLine]) h
  rw [frame, List.append_assoc, lines_oneLine hline]
  rfl

/-- Whatever the data begin with, the space that is skipped is the frame's. -/
theorem feed_data (b : Buffers) (data : List Char) :
    feed b (['d', 'a', 't', 'a', ':', ' '] ++ data) =
      ({ b with data := b.data ++ data ++ ['\n'] }, none) := rfl

/-- A frame is dispatched as one message, and leaves the buffers as they were. -/
theorem read_frame {data : List Char} (h : OneLine data) (id rest : List Char) :
    read { lastEventId := id } (lines [] (frame data ++ rest)) =
      ⟨"message", String.ofList data, String.ofList id⟩ ::
        read { lastEventId := id } (lines [] rest) := by
  rw [lines_frame h, read, feed_data, read, feed, dispatch]
  simp

theorem read_frames {texts : List (List Char)} (h : ∀ data ∈ texts, OneLine data)
    (id : List Char) :
    read { lastEventId := id } (lines [] (texts.flatMap frame)) =
      texts.map fun data => ⟨"message", String.ofList data, String.ofList id⟩ := by
  induction texts with
  | nil => rfl
  | cons data texts ih =>
    rw [List.flatMap_cons, read_frame (h data List.mem_cons_self),
      ih fun d hd => h d (List.mem_cons_of_mem _ hd), List.map_cons]

/-- Frames one after the other are read as their messages, one after the other. -/
theorem messages_frames {texts : List (List Char)} (h : ∀ data ∈ texts, OneLine data) :
    messages (String.ofList (texts.flatMap frame)) =
      texts.map fun data => ⟨"message", String.ofList data, ""⟩ := by
  have hmark : skipMark (texts.flatMap frame) = texts.flatMap frame := by
    cases texts with
    | nil => rfl
    | cons data texts =>
      rw [skipMark, if_neg]
      simp only [List.flatMap_cons, frame, List.cons_append, List.head?_cons, Option.some.injEq]
      decide
  rw [messages, String.toList_ofList, hmark]
  exact read_frames h []

/-- Line ends of all three kinds, a comment, a field without a value, data over two lines
and a message that is never dispatched. -/
example : messages (String.ofList "data: a\r\ndata:b\rid: 7\n: note\nretry\n\rdata: c".toList) =
    [⟨"message", "a\nb", "7"⟩] := by decide +kernel

end JobFlow.Lib.EventSource
