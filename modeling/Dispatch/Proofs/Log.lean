import Dispatch.Log
/-!
# What a log book holds

A book that is large enough holds what came into it, in order.
-/

namespace Dispatch.LogBook

variable {book : LogBook} {record : LogRecord} {records : List LogRecord}

/-- The book after some records more, the oldest first. -/
def addAll (book : LogBook) (records : List LogRecord) : LogBook := records.foldl append book

@[simp] theorem addAll_nil (book : LogBook) : book.addAll [] = book := rfl

theorem addAll_concat (book : LogBook) (records : List LogRecord) (record : LogRecord) :
    book.addAll (records ++ [record]) = (book.addAll records).append record := by
  rw [addAll, List.foldl_append]
  rfl

/-- A book that is not full keeps what it has. -/
theorem records_append (h : book.records.length < book.limit) :
    (book.append record).records = book.records ++ [record] := by
  have hnone : (book.records ++ [record]).length - book.limit = 0 := by
    rw [List.length_append, List.length_singleton]
    omega
  rw [append, hnone, List.drop_zero]

theorem records_addAll (h : book.records.length + records.length ≤ book.limit) :
    (book.addAll records).records = book.records ++ records := by
  induction records generalizing book with
  | nil => rw [addAll_nil, List.append_nil]
  | cons record rest ih =>
      rw [List.length_cons] at h
      have hrecords : (book.append record).records = book.records ++ [record] :=
        records_append (by omega)
      have hroom : (book.append record).records.length + rest.length ≤ book.limit := by
        rw [hrecords, List.length_append, List.length_singleton]
        omega
      rw [show book.addAll (record :: rest) = (book.append record).addAll rest from rfl, ih hroom,
        hrecords, List.append_assoc, List.singleton_append]

end Dispatch.LogBook
