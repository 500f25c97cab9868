import ShellDoc.Text.Lines

/-!
# Headings, footers and tables of contents

A heading is underlined in its own length; a footer stands under a rule of its own length.  A table
of contents is a heading and one link for each entry.
-/

namespace ShellDoc.Page

def heading (title : Text) : List Text := [title, List.replicate title.length '=', []]

def footer (text : Text) : List Text := [List.replicate text.length '-', text, []]

/-- A link with its title. -/
def linkLine (entry : Text × Text) : Text :=
  Text.concat ["- [", entry.1, "](", entry.2, ")"]

/-- The table of contents under a title, for titles and links in order. -/
def contents (title : Text) (entries : List (Text × Text)) : List Text :=
  heading title ++ entries.map linkLine

end ShellDoc.Page
