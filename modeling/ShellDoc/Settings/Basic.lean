import ShellDoc.Script.Dialect
import ShellDoc.Value.Basic

/-!
# Settings

The settings of a run: headings, where the output goes, whether files may be replaced, the footer,
and which dialects and files are recognized.  Each setting has a key, under which files and messages
know it.
-/

namespace ShellDoc

structure Settings where
  /-- The heading of a page, or of the table of contents of a directory. -/
  title : Text := []
  /-- The output file or directory; the working directory when empty. -/
  output : Text := []
  /-- Existing files may be replaced. -/
  force : Bool := false
  /-- Headings keep the extension of the file name. -/
  keepExtension : Bool := false
  /-- The footer of every page; none when empty. -/
  copyright : Text := []
  tableOfContents : Bool := false
  /-- Headings and names of output files begin with a capital letter. -/
  capitalize : Bool := false
  defaultDialect : Text := "sh"
  allowedDialects : List Text := ["bash", "sh", "zsh"]
  sourceExtensions : List Text := [".sh", ".bash", ".zsh"]
  contentsFile : Text := "Home.md"
  contentsHeading : Text := "Table of contents"
  deriving DecidableEq, Repr

/-- What a setting holds. -/
inductive Setting where
  | text (s : Text)
  | flag (b : Bool)
  | list (items : List Text)
  deriving DecidableEq, Repr

def Setting.toValue : Setting → Value
  | text s => .text s
  | flag b => .bool b
  | list items => Value.texts items

/-- The keys of the settings. -/
inductive Key where
  | title
  | output
  | force
  | keepExtension
  | copyright
  | tableOfContents
  | capitalize
  | defaultDialect
  | allowedDialects
  | sourceExtensions
  | contentsFile
  | contentsHeading
  deriving DecidableEq, Repr

namespace Key

def all : List Key :=
  [title, output, force, keepExtension, copyright, tableOfContents, capitalize, defaultDialect,
    allowedDialects, sourceExtensions, contentsFile, contentsHeading]

def name : Key → Text
  | title => "title"
  | output => "output"
  | force => "force"
  | keepExtension => "keep_extension"
  | copyright => "copyright"
  | tableOfContents => "table_of_contents"
  | capitalize => "capitalize"
  | defaultDialect => "default_dialect"
  | allowedDialects => "allowed_dialects"
  | sourceExtensions => "source_extensions"
  | contentsFile => "toc_filename"
  | contentsHeading => "toc_heading"

def names : List Text := all.map name

theorem mem_all (k : Key) : k ∈ all := by cases k <;> decide

/-- The key with a name. -/
def named? (s : Text) : Option Key := all.find? fun k => k.name = s

end Key

namespace Settings

def get (s : Settings) : Key → Setting
  | .title => .text s.title
  | .output => .text s.output
  | .force => .flag s.force
  | .keepExtension => .flag s.keepExtension
  | .copyright => .text s.copyright
  | .tableOfContents => .flag s.tableOfContents
  | .capitalize => .flag s.capitalize
  | .defaultDialect => .text s.defaultDialect
  | .allowedDialects => .list s.allowedDialects
  | .sourceExtensions => .list s.sourceExtensions
  | .contentsFile => .text s.contentsFile
  | .contentsHeading => .text s.contentsHeading

/-- The settings under the names of their keys. -/
def toFields (s : Settings) : Fields Setting := Key.all.map fun k => (k.name, s.get k)

def toValues (s : Settings) : Fields Value := s.toFields.map fun f => (f.1, f.2.toValue)

def toValue (s : Settings) : Value := Value.ofFields s.toValues

/-- The settings that decide about the dialect of a script. -/
def dialects (s : Settings) : Script.Dialects :=
  { fallback := s.defaultDialect, recognized := s.allowedDialects }

/-- Settings are the same if each of them is. -/
theorem eq_of_get_eq {s t : Settings} (h : ∀ k, s.get k = t.get k) : s = t := by
  cases s
  cases t
  have h1 := h .title
  have h2 := h .output
  have h3 := h .force
  have h4 := h .keepExtension
  have h5 := h .copyright
  have h6 := h .tableOfContents
  have h7 := h .capitalize
  have h8 := h .defaultDialect
  have h9 := h .allowedDialects
  have h10 := h .sourceExtensions
  have h11 := h .contentsFile
  have h12 := h .contentsHeading
  simp only [get, Setting.text.injEq, Setting.flag.injEq, Setting.list.injEq] at *
  simp [*]

end Settings

end ShellDoc
