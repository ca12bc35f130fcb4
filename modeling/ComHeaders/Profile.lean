import ComHeaders.Fault

/-!
# Profiles

A profile is the fixed part of one header: which namespace it declares, where it goes,
what it includes and links, which types other headers own, and what it borrows from a
shared namespace.  Two profiles are built in.
-/

namespace ComHeaders

/-- The fixed part of one header. -/
structure Profile where
  namespaceName : String
  outputFile : String
  library : String
  includes : List String
  /-- Lines that declare aliases of types. -/
  typeAliases : List String := []
  /-- Interfaces declared in advance, each with its alias. -/
  forwardInterfaces : List (String × String) := []
  /-- Types that an included header declares. -/
  excludedTypes : List String := ["DWRITE_GLYPH_IMAGE_FORMATS", "DWRITE_MEASURING_MODE"]
  /-- Enums that are named with their tag. -/
  taggedEnums : List String := ["DWRITE_GLYPH_IMAGE_FORMATS"]
  sharedNamespace : Option String := none
  /-- What is borrowed from the shared namespace. -/
  sharedAllowList : List String := []
  deriving Repr

namespace Profile

/-- The text header. -/
def directWrite : Profile where
  namespaceName := "Windows.Win32.Graphics.DirectWrite"
  outputFile := "cdwrite.h"
  library := "dwrite"
  includes := ["combaseapi.h", "dcommon.h"]
  forwardInterfaces := [
    ("ID2D1SimplifiedGeometrySink", "ID2D1SimplifiedGeometrySink"),
    ("ID2D1SimplifiedGeometrySink", "IDWriteGeometrySink")]

/-- The graphics header. -/
def direct2D : Profile where
  namespaceName := "Windows.Win32.Graphics.Direct2D"
  outputFile := "cd2d.h"
  library := "d2d1"
  includes := ["combaseapi.h", "dxgicommon.h", "d3dcommon.h", "d2dbasetypes.h", "dcommon.h"]
  typeAliases := [
    "typedef D2D_COLOR_F D2D1_COLOR_F;",
    "typedef struct DWRITE_GLYPH_RUN DWRITE_GLYPH_RUN;",
    "typedef struct DWRITE_GLYPH_RUN_DESCRIPTION DWRITE_GLYPH_RUN_DESCRIPTION;"]
  forwardInterfaces := [
    "IDXGIDevice", "IDXGISurface", "IWICImagingFactory", "IDWriteTextFormat",
    "IDWriteTextLayout", "IDWriteRenderingParams", "IDWriteFontFace", "IWICBitmapSource",
    "IWICBitmap", "IWICColorContext", "IPrintDocumentPackageTarget"].map fun n => (n, n)
  sharedNamespace := some "Windows.Win32.Graphics.Direct2D.Common"
  sharedAllowList := [
    "D2D1_BEZIER_SEGMENT", "D2D1_BLEND_MODE", "D2D1_COMPOSITE_MODE", "D2D1_FIGURE_BEGIN",
    "D2D1_FIGURE_END", "D2D1_FILL_MODE", "D2D1_PATH_SEGMENT", "ID2D1SimplifiedGeometrySink"]

/-- The profiles that are built in, in the order of their headers. -/
def builtIn : List Profile := [directWrite, direct2D]

/-- The built-in profile of a namespace. -/
def ofNamespace (n : String) : Except Fault Profile :=
  match builtIn.find? fun p => p.namespaceName = n with
  | some p => .ok p
  | none => .error (.unknownProfile n)

/-- The profiles of some namespaces, in their order; all of them if none is asked for. -/
def select (namespaces : List String) : Except Fault (List Profile) :=
  if namespaces.isEmpty then .ok builtIn else namespaces.mapM ofNamespace

end Profile

end ComHeaders
