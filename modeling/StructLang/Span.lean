namespace StructLang

/-- Lines and columns count from one, columns by character. An end of zero is not known. -/
structure Span where
  file : String
  line : Int
  column : Int := 1
  endLine : Int := 0
  endColumn : Int := 0
  deriving DecidableEq, Repr

def Span.text (s : Span) : String := s!"{s.file}:{s.line}:{s.column}"

end StructLang
