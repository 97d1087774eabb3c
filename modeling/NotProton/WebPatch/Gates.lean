import NotProton.Library.Text

/-!
# Gates — what is replaced in Steam's scripts (`webpatch.c`)

The bytes 1 to 8 and 19 to 22 of a text stand for captures, 17, 18 and 23 to 28 for the page's
inputs.  The scripts that are inserted whole are left open: nothing reads them.
-/

open NotProton.Library

namespace NotProton.WebPatch

inductive Optional
  | required
  | optional
  | page
  deriving DecidableEq

/-- `np_gate_t`. -/
structure Gate where
  find : Bytes
  replace : Bytes
  expect : Nat
  optional : Optional
  deriving DecidableEq

/-- `NP_CX_OPTIONS_COMPONENT` and the other scripts and translated texts. -/
structure PageTexts where
  optionsComponent : Bytes
  optionsStatement : Bytes
  prefixRow : Bytes
  launchMigration : Bytes
  compatHint : Bytes
  imageFilesLabel : Bytes
  libraryWindowsHint : Bytes
  libraryWindowsSummary : Bytes

def gGatesForcetool (texts : PageTexts) : List Gate :=
  [{ find :=
        utf8 "function \x01(\x02)\x7breturn(0,\x03.CI)()?"
     replace :=
        utf8 "function \x01(\x02)\x7breturn true?"
     expect := 1
     optional := .required },
   { find :=
        utf8 "(0,\x01.CI)()&&\x02.push(\x7btitle:(0,\x03.we)(\"#AppProperties_CompatibilityPag" ++
        utf8 "e\")"
     replace :=
        utf8 "true&&\x02.push(\x7btitle:(0,\x03.we)(\"#AppProperties_CompatibilityPage\")"
     expect := 2
     optional := .required },
   { find :=
        utf8 "Compatibility:\x7bvisible:\x01&&(0,\x02.CI)()&&!(0,\x02.rf)()"
     replace :=
        utf8 "Compatibility:\x7bvisible:\x01&&true&&!(0,\x02.rf)()"
     expect := 1
     optional := .required },
   { find :=
        utf8 "return(0,\x01.jsxs)(\x01.Fragment,\x7bchildren:[0!=\x02.length&&(0,\x01.jsx)(" ++
        utf8 "\x03,\x7blabel:(0,\x04.we)(\"#AppProperties_CompatilibityForceTool\"),checked:" ++
        utf8 "\x05,onChange:\x06,disabled:!\x07||0===\x02.length\x7d),\x05&&\x02.length>0&&(0," ++
        utf8 "\x01.jsx)(\x08.m,\x7bstrClassName:\x13().TopGap,rgOptions:\x14,selectedOption:" ++
        utf8 "\x15.strCompatToolName,onChange:\x16=>SteamClient.Apps.SpecifyCompatTool(" ++
        utf8 "\x15.unAppID,\x16.data)\x7d)]\x7d)"
     replace :=
        utf8 "return(0,\x01.jsxs)(\x01.Fragment,\x7bchildren:[0!=\x02.length&&(0,\x01.jsx)(" ++
        utf8 "\x03,\x7blabel:(0,\x04.we)(\"#AppProperties_CompatilibityForceTool\"),checked:" ++
        utf8 "\x05,onChange:\x06,disabled:!\x07||0===\x02.length\x7d),\x05&&\x02.length>0&&(0," ++
        utf8 "\x01.jsx)(\x08.m,\x7bstrClassName:\x13().TopGap+\" MSCXNoBottomGap\",rgOptions:" ++
        utf8 "\x14,selectedOption:\x15.strCompatToolName,onChange:\x16=" ++
        utf8 ">\x7bSteamClient.Apps.SpecifyCompatTool(\x15.unAppID,\x16.data);MSCXPick(\x15," ++
        utf8 "\x16.data)\x7d\x7d)]\x7d)"
     expect := 1
     optional := .required },
   { find :=
        utf8 "\x01=(0,\x02.PA)(\x03=>(0,\x04.jsxs)(\x05.nB,\x7bchildren:[(0,\x04.jsx)(\"div\"," ++
        utf8 "\x7bclassName:\x06().HiddenIfNotLast,children:(0,\x07.we)(" ++
        utf8 "\"#AppProperties_CompatibilityNoOptions\")\x7d),(0,\x04.jsx)(\x08," ++
        utf8 "\x7b...\x03\x7d),(0,\x04.jsx)(\x13,\x7b...\x03\x7d)]\x7d));"
     replace :=
        texts.optionsComponent ++
        utf8 "\x01=(0,\x02.PA)(\x03=>(0,\x04.jsxs)(\x05.nB,\x7bchildren:[(0,\x04.jsx)(\"div\"," ++
        utf8 "\x7bclassName:\x06().HiddenIfNotLast,children:(0,\x07.we)(" ++
        utf8 "\"#AppProperties_CompatibilityNoOptions\")\x7d),(0,\x04.jsx)(\x08," ++
        utf8 "\x7b...\x03\x7d),(0,\x04.jsx)(\x13,\x7b...\x03\x7d),(0,\x04.jsx)(MSCXOpts," ++
        utf8 "\x7b...\x03\x7d)]\x7d));"
     expect := 1
     optional := .required },
   { find :=
        utf8 "get is_invalid_os_type()\x7breturn this.most_available_per_client_data.is_invali" ++
        utf8 "d_os_type\x7d"
     replace :=
        utf8 "get is_invalid_os_type()\x7breturn false\x7d"
     expect := 1
     optional := .required },
   { find :=
        utf8 "\x01.is_invalid_os_type&&(0,\x02.jsx)(\x03,\x7b\x7d)"
     replace :=
        utf8 "!\x01.local_per_client_data?.installed&&\x01.most_available_per_client_data?" ++
        utf8 ".is_invalid_os_type&&(0,\x02.jsx)(\x03,\x7b\x7d)"
     expect := 1
     optional := .required },
   { find :=
        utf8 "(0,\x01.we)(\"#GameList_Entry_Invalid_OSType2\")"
     replace :=
        texts.compatHint
     expect := 1
     optional := .required }]

def gGatesSelecttool (texts : PageTexts) : List Gate :=
  [{ find :=
        utf8 "(0,\x01.CI)()&&\x02.push(\x7btitle:(0,\x03.we)(\"#AppProperties_CompatibilityPag" ++
        utf8 "e\")"
     replace :=
        utf8 "true&&\x02.push(\x7btitle:(0,\x03.we)(\"#AppProperties_CompatibilityPage\")"
     expect := 2
     optional := .required },
   { find :=
        utf8 "Compatibility:\x7bvisible:\x01&&(0,\x02.CI)(),title:"
     replace :=
        utf8 "Compatibility:\x7bvisible:\x01&&true,title:"
     expect := 1
     optional := .required },
   { find :=
        utf8 "function \x01(\x02)\x7breturn(0,\x03.jsxs)(\x04.XY,\x7blabel:(0,\x05.we)(" ++
        utf8 "\"#Settings_SteamPlay_SteamPlay\"),children:[(0,\x03.jsx)(\x06,\x7bdetails:" ++
        utf8 "\x02.details\x7d),(0,\x03.jsx)(\x07.G,\x7bsetting:\"compat_show_all_tools\"," ++
        utf8 "label:(0,\x05.we)(\"#Settings_SteamPlay_ShowAll\"),feature:\x08.OK\x7d)]\x7d)" ++
        utf8 "\x7d"
     replace :=
        texts.optionsStatement ++
        utf8 "function \x01(\x02)\x7breturn(0,\x03.jsxs)(\x03.Fragment,\x7bchildren:[(0," ++
        utf8 "\x03.jsxs)(\x04.XY,\x7blabel:(0,\x05.we)(\"#Settings_SteamPlay_SteamPlay\")," ++
        utf8 "children:[(0,\x03.jsx)(\x06,\x7bdetails:\x02.details\x7d),(0,\x03.jsx)(\x07.G," ++
        utf8 "\x7bsetting:\"compat_show_all_tools\",label:(0,\x05.we)(" ++
        utf8 "\"#Settings_SteamPlay_ShowAll\"),feature:\x08.OK\x7d)]\x7d),(0,\x03.jsx)(" ++
        utf8 "MSCXOpts,\x7bdetails:\x02.details\x7d)]\x7d)\x7d"
     expect := 1
     optional := .required },
   { find :=
        utf8 "function \x01(\x02)\x7breturn(0,\x03.jsxs)(\x04.XY,\x7blabel:(0,\x05.we)(" ++
        utf8 "\"#Settings_SteamPlay_SteamPlay\"),children:[(0,\x03.jsx)(\x06,\x7b\x7d),(0," ++
        utf8 "\x03.jsx)(\x07.G,\x7bsetting:\"compat_show_all_tools\",label:(0,\x05.we)(" ++
        utf8 "\"#Settings_SteamPlay_ShowAll\"),feature:\x08.OK\x7d)]\x7d)\x7d"
     replace :=
        utf8 "function \x01(\x02)\x7breturn(0,\x03.jsxs)(\x03.Fragment,\x7bchildren:[(0," ++
        utf8 "\x03.jsxs)(\x04.XY,\x7blabel:(0,\x05.we)(\"#Settings_SteamPlay_SteamPlay\")," ++
        utf8 "children:[(0,\x03.jsx)(\x06,\x7b\x7d),(0,\x03.jsx)(\x07.G,\x7bsetting:" ++
        utf8 "\"compat_show_all_tools\",label:(0,\x05.we)(\"#Settings_SteamPlay_ShowAll\")," ++
        utf8 "feature:\x08.OK\x7d)]\x7d),(0,\x03.jsx)(MSCXDefaultsPage,\x7b\x7d)]\x7d)\x7d"
     expect := 1
     optional := .page },
   { find :=
        utf8 "function \x01(\x02,\x03)\x7breturn \x03=\x03||(0,\x04.OI)().GetDefaultTransport(" ++
        utf8 "),\x03==null?new Promise((\x05,\x06)=>\x7bconsole.error(\"Transport Error:" ++
        utf8 " no transport is available for request\"),\x06(\"Transport Error:" ++
        utf8 " no transport is available for request\")\x7d):\x03.SendMsg(" ++
        utf8 "\"CompatManager.SpecifyCompatTool#1\",(0,\x07.I8)(\x08,\x02),\x13," ++
        utf8 "\x7bePrivilege:1,eClientExecutionSite:2\x7d)\x7d\x14.SendMsgSpecifyCompatTool=" ++
        utf8 "\x01,"
     replace :=
        utf8 "function \x01(\x02,\x03)\x7breturn \x03=\x03||(0,\x04.OI)().GetDefaultTransport(" ++
        utf8 "),\x03==null?new Promise((\x05,\x06)=>\x7bconsole.error(\"Transport Error:" ++
        utf8 " no transport is available for request\"),\x06(\"Transport Error:" ++
        utf8 " no transport is available for request\")\x7d):\x03.SendMsg(" ++
        utf8 "\"CompatManager.SpecifyCompatTool#1\",(0,\x07.I8)(\x08,\x02),\x13," ++
        utf8 "\x7bePrivilege:1,eClientExecutionSite:2\x7d)\x7dglobalThis.MSCXSpecifyRoute=(" ++
        utf8 "npRt,npA,npX)=>\x7bconst npT=(0,\x04.OI)().GetDefaultTransport();" ++
        utf8 "return!/^NotProton\\./.test(npRt)?Promise.reject(\"not a NotProton route\"):npT=" ++
        utf8 "=null?Promise.reject(\"Transport Error: no transport is available for request\")" ++
        utf8 ":npT.SendMsg(npRt,(0,\x07.I8)(\x08,\x7bappid:npA,tool_name:npX\x7d),\x13," ++
        utf8 "\x7bePrivilege:1,eClientExecutionSite:2\x7d)\x7d,\x14.SendMsgSpecifyCompatTool=" ++
        utf8 "\x01,"
     expect := 1
     optional := .page },
   { find :=
        utf8 "const \x01=new \x02;function \x03(\x04)\x7bconst \x05=\x06.useCallback(async()=" ++
        utf8 ">\x7bconst \x07=await \x08.GetCompatTools(\x7bappid:\x04\x7d);"
     replace :=
        utf8 "const \x01=new \x02;globalThis.MSCXUseState=\x06.useState;" ++
        utf8 "globalThis.MSCXUseEffect=\x06.useEffect;function \x03(\x04)\x7bconst \x05=" ++
        utf8 "\x06.useCallback(async()=>\x7bconst \x07=await \x08.GetCompatTools(\x7bappid:" ++
        utf8 "\x04\x7d);"
     expect := 1
     optional := .page },
   { find :=
        utf8 "[\x01,\x02]=(0,\x03.cT)(\x04);if(\x01.isLoading||!\x01.data?.tools?.length)" ++
        utf8 "return null;"
     replace :=
        utf8 "[\x01,\x02]=(typeof MSCXToolQuery==\"function\"?MSCXToolQuery:r=>r)((0,\x03.cT)(" ++
        utf8 "\x04),\x04);if(\x01.isLoading||!\x01.data?.tools?.length)return null;"
     expect := 1
     optional := .optional },
   { find :=
        utf8 "\x07=\x07||(0,\x08.OI)().GetDefaultTransport(),\x07==null?new Promise((\x13," ++
        utf8 "\x14)=>\x7bconsole.error(\"Transport Error: no transport is available for reques" ++
        utf8 "t\"),\x14(\"Transport Error: no transport is available for request\")\x7d):" ++
        utf8 "\x07.SendMsg(\"CompatManager.GetCompatTools#1\",(0,\x01.I8)(\x02,\x03),\x04," ++
        utf8 "\x7bePrivilege:1,eClientExecutionSite:2\x7d)\x7d\x05.GetCompatTools=\x06;"
     replace :=
        utf8 "\x07=\x07||(0,\x08.OI)().GetDefaultTransport(),\x07==null?new Promise((\x13," ++
        utf8 "\x14)=>\x7bconsole.error(\"Transport Error: no transport is available for reques" ++
        utf8 "t\"),\x14(\"Transport Error: no transport is available for request\")\x7d):" ++
        utf8 "\x07.SendMsg(\"CompatManager.GetCompatTools#1\",(0,\x01.I8)(\x02,\x03),\x04," ++
        utf8 "\x7bePrivilege:1,eClientExecutionSite:2\x7d)\x7dglobalThis.MSCXRoute=(r,id)=" ++
        utf8 ">\x7bconst t=(0,\x08.OI)().GetDefaultTransport();return!/^NotProton\\./.test(r)?" ++
        utf8 "Promise.reject(\"not a NotProton route\"):t?t.SendMsg(r,(0,\x01.I8)(\x02," ++
        utf8 "\x7bappid:id\x7d),\x04,\x7bePrivilege:1,eClientExecutionSite:2\x7d).then(x=" ++
        utf8 ">x.BSuccess()?x.Body().toObject().default_tool_identifier||\"\":Promise.reject(" ++
        utf8 "\"result \"+x.GetEResult())):Promise.reject(\"no transport\")\x7d;" ++
        texts.prefixRow ++ utf8 "\x05.GetCompatTools=\x06;"
     expect := 1
     optional := .optional },
   { find :=
        utf8 "get is_invalid_os_type()\x7breturn this.most_available_per_client_data.is_invali" ++
        utf8 "d_os_type\x7d"
     replace :=
        utf8 "get is_invalid_os_type()\x7breturn false\x7d"
     expect := 1
     optional := .required },
   { find :=
        utf8 "\x01.is_invalid_os_type&&(0,\x02.jsx)(\x03,\x7b\x7d)"
     replace :=
        utf8 "!\x01.local_per_client_data?.installed&&\x01.most_available_per_client_data?" ++
        utf8 ".is_invalid_os_type&&(0,\x02.jsx)(\x03,\x7b\x7d)"
     expect := 1
     optional := .required },
   { find :=
        utf8 "(0,\x01.we)(\"#GameList_Entry_Invalid_OSType2\")"
     replace :=
        texts.compatHint
     expect := 1
     optional := .required }]

def gFixes (texts : PageTexts) : List Gate :=
  [{ find :=
        utf8 "(\"#AddNonSteam_Filter_Exe_MacOS\"),rFilePatterns:[\"*.app\"]"
     replace :=
        utf8 "(\"#AddNonSteam_Filter_Exe_MacOS\"),rFilePatterns:[\"*.app\",\"*.exe\"]"
     expect := 1
     optional := .required },
   { find :=
        utf8 "\x7bstrFileTypeName:\"Image Files (*.tga,*.png)\",rFilePatterns:[\"*.tga\"," ++
        utf8 "\"*.png\"]\x7d"
     replace :=
        utf8 "\x7bstrFileTypeName:" ++ texts.imageFilesLabel ++
        utf8 ",rFilePatterns:[\"*.tga\",\"*.png\",\"*.exe\"]\x7d"
     expect := 1
     optional := .required },
   { find :=
        utf8 "r=(0,s.q3)(()=>u.rV.settings.bCompatEnabled),a=function(e,t)\x7bconst[r,i]=" ++
        utf8 "n.useState([]);return n.useEffect(()=>\x7bSteamClient.Apps.GetAvailableCompatToo" ++
        utf8 "ls(e).then(i)\x7d,[e,t]),r\x7d(t.unAppID,r),o=r&&!!t.strCompatToolName&&" ++
        utf8 "t.nCompatToolPriority==h.JN,l=a.length?a[0].strToolName:\"\""
     replace :=
        utf8 "r=(0,s.q3)(()=>u.rV.settings.bCompatEnabled),a=function(e,t)\x7bconst[r,i]=" ++
        utf8 "n.useState([]);return n.useEffect(()=>\x7bSteamClient.Apps.GetAvailableCompatToo" ++
        utf8 "ls(e).then(i)\x7d,[e,t]),r\x7d(t.unAppID,r),o=r&&!!t.strCompatToolName&&" ++
        utf8 "t.nCompatToolPriority==h.JN,l=a.length?(a.find(e=>e.strToolName===" ++
        utf8 "u.rV.settings.strCompatTool)||a[0]).strToolName:\"\""
     expect := 1
     optional := .required },
   { find :=
        utf8 "return \x01?(0,\x02.jsx)(\x03.B,\x7bfeature:\x04.OK,label:(0,\x05.we)(" ++
        utf8 "\"#Settings_SteamPlay_DefaultTool\"),rgOptions:\x06,disabled:0==\x06.length," ++
        utf8 "selectedOption:\x01,"
     replace :=
        utf8 "return(globalThis.MSCXDefaultTool!==(\x01||\"\x11\")&&(" ++
        utf8 "globalThis.MSCXDefaultTool=\x01||\"\x11\",queueMicrotask(()=" ++
        utf8 ">globalThis.dispatchEvent?.(new CustomEvent(\"mscxdefaulttool\",\x7bdetail:" ++
        utf8 "globalThis.MSCXDefaultTool\x7d)))),\x01||\x06.some(e=>e.data===\"\x11\"))?(0," ++
        utf8 "\x02.jsx)(\x03.B,\x7bfeature:\x04.OK,label:(0,\x05.we)(" ++
        utf8 "\"#Settings_SteamPlay_DefaultTool\"),rgOptions:\x06,disabled:0==\x06.length," ++
        utf8 "selectedOption:\x01||\"\x11\","
     expect := 1
     optional := .required },
   { find :=
        utf8 "this.m_bServicesInitialized=!0,SteamClient.UI.NotifyAppInitialized()"
     replace :=
        utf8 "this.m_bServicesInitialized=!0," ++ texts.launchMigration ++
        utf8 ",SteamClient.UI.NotifyAppInitialized()"
     expect := 1
     optional := .required },
   { find :=
        utf8 "case \x01.\x02:return!!(0,\x03.td)()||\x04.is_available_on_current_platform&&" ++
        utf8 "!\x04.is_invalid_os_type;"
     replace :=
        utf8 "case\"notprotonWindows\":return(0,\x03.Pr)()&&(window.__NOTPROTON_NATIVE_PLATFOR" ++
        utf8 "M__.windows.has(\x04.appid)||window.__NOTPROTON_RUNS_EXE__(\x04))&&!(" ++
        utf8 "window.__NOTPROTON_NATIVE_PLATFORM__.mac.has(\x04.appid)&&" ++
        utf8 "!\x04.most_available_per_client_data?.is_invalid_os_type);case \x01.\x02:" ++
        utf8 "return (0,\x03.Pr)()&&window.__NOTPROTON_NATIVE_PLATFORM__.mac.has(\x04.appid)?" ++
        utf8 "!\x04.most_available_per_client_data?.is_invalid_os_type:(0,\x03.Pr)()&&(" ++
        utf8 "window.__NOTPROTON_NATIVE_PLATFORM__.windows.has(\x04.appid)" ++
        utf8 "||window.__NOTPROTON_RUNS_EXE__(\x04))?!1:(0,\x03.Pr)()?" ++
        utf8 "\x04.is_available_on_current_platform&&!\x04.most_available_per_client_data?" ++
        utf8 ".is_invalid_os_type:!!(0,\x03.td)()||\x04.is_available_on_current_platform&&" ++
        utf8 "!\x04.is_invalid_os_type;"
     expect := 1
     optional := .required },
   { find :=
        utf8 "case \x01.\x02:return(0,\x03.CI)()&&!(0,\x03.mP)()?\x04(\x05):(0,\x03.td)()?!0:" ++
        utf8 "\x05.is_available_on_current_platform&&!\x05.is_invalid_os_type;"
     replace :=
        utf8 "case\"notprotonWindows\":return(0,\x03.Pr)()&&(window.__NOTPROTON_NATIVE_PLATFOR" ++
        utf8 "M__.windows.has(\x05.appid)||window.__NOTPROTON_RUNS_EXE__(\x05))&&!(" ++
        utf8 "window.__NOTPROTON_NATIVE_PLATFORM__.mac.has(\x05.appid)&&" ++
        utf8 "!\x05.most_available_per_client_data?.is_invalid_os_type);case \x01.\x02:" ++
        utf8 "return (0,\x03.Pr)()&&window.__NOTPROTON_NATIVE_PLATFORM__.mac.has(\x05.appid)?" ++
        utf8 "!\x05.most_available_per_client_data?.is_invalid_os_type:(0,\x03.Pr)()&&(" ++
        utf8 "window.__NOTPROTON_NATIVE_PLATFORM__.windows.has(\x05.appid)" ++
        utf8 "||window.__NOTPROTON_RUNS_EXE__(\x05))?!1:(0,\x03.Pr)()?" ++
        utf8 "\x05.is_available_on_current_platform&&!\x05.most_available_per_client_data?" ++
        utf8 ".is_invalid_os_type:(0,\x03.CI)()&&!(0,\x03.mP)()?\x04(\x05):(0,\x03.td)()?!0:" ++
        utf8 "\x05.is_available_on_current_platform&&!\x05.is_invalid_os_type;"
     expect := 1
     optional := .required }]

def gLibraryFilters (texts : PageTexts) : List Gate :=
  [{ find :=
        utf8 "if(!\x01(\x02[\x03.W6],\x04(\x05))||!\x01(\x02[\x03.sc],"
     replace :=
        utf8 "if(!(this.m_filterSpec.notprotonWindows?((npGroup,npCheck)=>\x7bconst npApple=" ++
        utf8 "npGroup.rgOptions.includes(\x03.Pu);return \x01(\x7b...npGroup,rgOptions:" ++
        utf8 "[...npGroup.rgOptions.filter(npOption=>npOption!==\x03.Pu)," ++
        utf8 "\"notprotonWindows\"]\x7d,npOption=>npOption===\"notprotonWindows\"?npCheck(" ++
        utf8 "npOption)||npApple&&npCheck(\x03.Pu):npCheck(npOption))\x7d)(\x02[\x03.W6],\x04(" ++
        utf8 "\x05)):\x01(\x02[\x03.W6],\x04(\x05)))||!\x01(\x02[\x03.sc],"
     expect := 2
     optional := .required },
   { find :=
        utf8 ",strSearchText:\x01&&\x01.strSearchText||\"\",filterGroups:"
     replace :=
        utf8 ",strSearchText:\x01&&\x01.strSearchText||\"\",notprotonWindows:!!\x01?" ++
        utf8 ".notprotonWindows,filterGroups:"
     expect := 1
     optional := .required },
   { find :=
        utf8 "SelectOption(\x01,\x02,\x03)\x7blet \x04=this.m_filterSpec.filterGroups[\x01].rg" ++
        utf8 "Options;"
     replace :=
        utf8 "SelectOption(\x01,\x02,\x03)\x7bif(\x01===\"notprotonWindows\")" ++
        utf8 "\x7bthis.m_filterSpec.notprotonWindows=!!\x03;return\x7dlet \x04=" ++
        utf8 "this.m_filterSpec.filterGroups[\x01].rgOptions;"
     expect := 1
     optional := .required },
   { find :=
        utf8 "Reset()\x7bthis.m_filterSpec.strSearchText=\"\","
     replace :=
        utf8 "Reset()\x7bthis.m_filterSpec.notprotonWindows=!1,this.m_filterSpec.strSearchText" ++
        utf8 "=\"\","
     expect := 1
     optional := .required },
   { find :=
        utf8 "get bIsEmpty()\x7breturn this.searchText.length==0&&"
     replace :=
        utf8 "get bIsEmpty()\x7breturn!this.m_filterSpec.notprotonWindows&&" ++
        utf8 "this.searchText.length==0&&"
     expect := 1
     optional := .required },
   { find :=
        utf8 "let \x01=this.GetSelectedOptions(\x02.W6);\x01.length>0&&\x03.push(\x01.map(" ++
        utf8 "\x04=>\x7bif(\x04==\x02.Pu)\x7b"
     replace :=
        utf8 "let \x01=this.GetSelectedOptions(\x02.W6);this.m_filterSpec.notprotonWindows&&(" ++
        utf8 "\x01=[...\x01,\"notprotonWindows\"]);\x01.length>0&&\x03.push(\x01.map(\x04=" ++
        utf8 ">\x7bif(\x04===\"notprotonWindows\")return " ++ texts.libraryWindowsSummary ++
        utf8 ";if(\x04==\x02.Pu)\x7b"
     expect := 1
     optional := .required },
   { find :=
        utf8 ",\x01=\x02.n6.currentAppFilter.BIsSelected(\x03.W6,\x03.Pu);return(0,\x04.jsxs)(" ++
        utf8 "\"div\",\x7bclassName:\x05().Bar,"
     replace :=
        utf8 ",\x01=\x02.n6.currentAppFilter.BIsSelected(\x03.W6,\x03.Pu),npStore=\x02.n6," ++
        utf8 "npWindows=!!\x02.n6.currentAppFilter.m_filterSpec.notprotonWindows;return(0," ++
        utf8 "\x04.jsxs)(\"div\",\x7bclassName:\x05().Bar,"
     expect := 1
     optional := .required },
   { find :=
        utf8 "children:[\x01&&(0,\x02.jsxs)(\x03.he,\x7bdirection:\"top\",nDelayShowMS:240," ++
        utf8 "toolTipContent:\x04?\"#GameList_View_Platform_Linux\":" ++
        utf8 "\"#GameList_View_Platform_Apple\",className:(0,\x05.A)(\x06().CheckboxWithImage," ++
        utf8 "\x07&&\x06().Disabled,\x08&&\x06().Active),onClick:()=>\x07||\x13(\x14.W6," ++
        utf8 "\x14.Pu,!\x08),children:[\x04&&(0,\x02.jsx)(\x15.Wy0,\x7b\x7d),!\x04&&(0," ++
        utf8 "\x02.jsx)(\x15.kPc,\x7b\x7d)]\x7d)"
     replace :=
        utf8 "children:[\x01&&!\x04&&\x15.Xz0&&(0,\x02.jsxs)(\x03.he,\x7bdirection:\"top\"," ++
        utf8 "nDelayShowMS:240,toolTipContent:" ++ texts.libraryWindowsHint ++
        utf8 ",className:(0,\x05.A)(\x06().CheckboxWithImage,\x07&&\x06().Disabled,npWindows&&" ++
        utf8 "\x06().Active),onClick:()=>\x07||npStore.SelectCollectionsAppFilterOption(" ++
        utf8 "\"notprotonWindows\",null,!npWindows),children:[(0,\x02.jsx)(\"style\"," ++
        utf8 "\x7bchildren:\".\"+\x06().CheckboxWithImage+\" .SVGIcon_WindowsLogo\x7bwidth:" ++
        utf8 "13px;height:13px\x7d.\"+\x06().CheckboxWithImage+\" .SVGIcon_WindowsLogo rect" ++
        utf8 "\x7bfill:inherit\x7d\"\x7d),(0,\x02.jsx)(\x15.Xz0,\x7b\x7d)]\x7d),\x01&&(0," ++
        utf8 "\x02.jsxs)(\x03.he,\x7bdirection:\"top\",nDelayShowMS:240,toolTipContent:\x04?" ++
        utf8 "\"#GameList_View_Platform_Linux\":\"#GameList_View_Platform_Apple\",className:(" ++
        utf8 "0,\x05.A)(\x06().CheckboxWithImage,\x07&&\x06().Disabled,\x08&&\x06().Active)," ++
        utf8 "onClick:()=>\x07||\x13(\x14.W6,\x14.Pu,!\x08),children:[\x04&&(0,\x02.jsx)(" ++
        utf8 "\x15.Wy0,\x7b\x7d),!\x04&&(0,\x02.jsx)(\x15.kPc,\x7b\x7d)]\x7d)"
     expect := 1
     optional := .required },
   { find :=
        utf8 "children:[\x01&&(0,\x02.jsxs)(\x03.he,\x7bdirection:\"top\",nDelayShowMS:240," ++
        utf8 "toolTipContent:\x04?(0,\x16.we)(\"#GameList_View_Platform_Linux\"):(0,\x16.we)(" ++
        utf8 "\"#GameList_View_Platform_Apple\"),className:(0,\x05.A)(\x06()" ++
        utf8 ".CheckboxWithImage,\x07&&\x06().Disabled,\x08&&\x06().Active),onClick:()=" ++
        utf8 ">\x07||\x13(\x14.W6,\x14.Pu,!\x08),children:[\x04&&(0,\x02.jsx)(\x15.Wy0," ++
        utf8 "\x7b\x7d),!\x04&&(0,\x02.jsx)(\x15.kPc,\x7b\x7d)]\x7d)"
     replace :=
        utf8 "children:[\x01&&!\x04&&\x15.Xz0&&(0,\x02.jsxs)(\x03.he,\x7bdirection:\"top\"," ++
        utf8 "nDelayShowMS:240,toolTipContent:" ++ texts.libraryWindowsHint ++
        utf8 ",className:(0,\x05.A)(\x06().CheckboxWithImage,\x07&&\x06().Disabled,npWindows&&" ++
        utf8 "\x06().Active),onClick:()=>\x07||npStore.SelectCollectionsAppFilterOption(" ++
        utf8 "\"notprotonWindows\",null,!npWindows),children:[(0,\x02.jsx)(\"style\"," ++
        utf8 "\x7bchildren:\".\"+\x06().CheckboxWithImage+\" .SVGIcon_WindowsLogo\x7bwidth:" ++
        utf8 "13px;height:13px\x7d.\"+\x06().CheckboxWithImage+\" .SVGIcon_WindowsLogo rect" ++
        utf8 "\x7bfill:inherit\x7d\"\x7d),(0,\x02.jsx)(\x15.Xz0,\x7b\x7d)]\x7d),\x01&&(0," ++
        utf8 "\x02.jsxs)(\x03.he,\x7bdirection:\"top\",nDelayShowMS:240,toolTipContent:\x04?(" ++
        utf8 "0,\x16.we)(\"#GameList_View_Platform_Linux\"):(0,\x16.we)(" ++
        utf8 "\"#GameList_View_Platform_Apple\"),className:(0,\x05.A)(\x06()" ++
        utf8 ".CheckboxWithImage,\x07&&\x06().Disabled,\x08&&\x06().Active),onClick:()=" ++
        utf8 ">\x07||\x13(\x14.W6,\x14.Pu,!\x08),children:[\x04&&(0,\x02.jsx)(\x15.Wy0," ++
        utf8 "\x7b\x7d),!\x04&&(0,\x02.jsx)(\x15.kPc,\x7b\x7d)]\x7d)"
     expect := 1
     optional := .required }]

def npNativeMacFilterFix : Nat := 5
def npUpdatedNativeMacFilterFix : Nat := 6
def npLibraryToolbar : Nat := 7

/-- `NP_RUNS_EXE_JS`. -/
def npRunsExeJs : Bytes :=
  utf8 "window.__NOTPROTON_RUNS_EXE__=a=>\x7bif(!a.BIsShortcut?.())return!1;const s=" ++
    utf8 "window.appDetailsStore,e=s?.m_mapAppData?.get(a.appid);s&&!e?.cRegistered&&" ++
    utf8 "queueMicrotask(()=>s.m_mapAppData.get(a.appid)?.cRegistered||s.RegisterForAppDat" ++
    utf8 "a(a.appid));return/\\.exe\"?$/i.test(e?.details?.strShortcutExe??\"\")\x7d;\x0a"

/-- The names `NP_CX_BARREL` goes over. -/
def npCxBarrelNames : List Bytes :=
  [utf8 "XY", utf8 "m", utf8 "Yh", utf8 "$n", utf8 "Vb", utf8 "D0", utf8 "y4", utf8 "J1",
    utf8 "d3", utf8 "gz"]

/-- A page the compatibility settings have been on, with the text it is told by. -/
inductive UiShape
  | forcetool
  | selecttool
  deriving DecidableEq

def UiShape.name : UiShape → Bytes
  | forcetool => utf8 "forcetool"
  | selecttool => utf8 "selecttool"

def UiShape.probe : UiShape → Bytes
  | forcetool => utf8 "#AppProperties_CompatilibityForceTool"
  | selecttool => utf8 "#AppProperties_Compat_SelectTool"

def UiShape.gates (texts : PageTexts) : UiShape → List Gate
  | forcetool => gGatesForcetool texts
  | selecttool => gGatesSelecttool texts

/-- `g_shapes`. -/
def gShapes : List UiShape := [.forcetool, .selecttool]

end NotProton.WebPatch
